import Premise.ContextEngine.Proofs.GateProofs

/-!
# Proofs: the loop

The loop keeps the sums and the limits, and selects from the units in their order. What is decided about a
unit that is selected stays.
-/

namespace Premise.ContextEngine

open Collections Control Js

namespace Selecting

/-- A unit is selected as its record says, at the end of a run. -/
def Recorded (s : Selecting) : Prop :=
  ∀ id, (∃ k, s.records.decisionOf id = some (.selected k)) ↔ ∃ unit ∈ s.selectedUnits, unit.id = id

def ParentsFirst (chosen : List ContextUnit) : Prop :=
  ∀ (i : Nat) (unit : ContextUnit) parentId, chosen[i]? = some unit → unit.parentId = some parentId →
    ∃ (j : Nat) (parent : ContextUnit), j < i ∧ chosen[j]? = some parent ∧ parent.sourceId = parentId

/-- What the loop keeps. -/
structure Sound (limits : SelectionLimits) (usableTokenBudget : Nat) (s : Selecting) : Prop where
  tokens : (s.selectedUnits.map ContextUnit.tokens).sum = s.tokensUsed
  budget : s.tokensUsed ≤ usableTokenBudget
  maxChunks : ∀ maxChunks, limits.maxChunks = some maxChunks → s.selectedUnits.length ≤ maxChunks
  sources : ∀ id, id ∈ s.selectedSources ↔ ∃ unit ∈ s.selectedUnits, unit.sourceId = id
  maxSources : ∀ maxSources, limits.maxSources = some maxSources → s.selectedSources.size ≤ maxSources
  parents : ParentsFirst s.selectedUnits
  recorded : s.Recorded

section

variable {limits : SelectionLimits} {usableTokenBudget : Nat} {s : Selecting} {unit : ContextUnit}

theorem Recorded.skip (h : s.Recorded) (reason : SelectionSkipReason)
    (hpending : s.records.decisionOf unit.id = some .pending) : (s.skip unit reason).Recorded := by
  intro id
  have hnot : ∀ k, s.records.decisionOf unit.id ≠ some (.selected k) := by
    intro k hk
    rw [hpending] at hk
    cases hk
  exact (exists_congr (fun k => Records.selected_settle_skipped _ hnot k)).trans (h id)

theorem Sound.skip (h : s.Sound limits usableTokenBudget) (reason : SelectionSkipReason)
    (hpending : s.records.decisionOf unit.id = some .pending) :
    (s.skip unit reason).Sound limits usableTokenBudget :=
  { h with recorded := h.recorded.skip reason hpending }

theorem Recorded.select (h : s.Recorded) (hpending : s.records.decisionOf unit.id = some .pending) :
    (s.select unit).Recorded := by
  intro id
  show (∃ k, (s.records.settle unit.id (.selected s.selectedUnits.length)).decisionOf id
    = some (.selected k)) ↔ ∃ chosen ∈ s.selectedUnits ++ [unit], chosen.id = id
  rw [Records.decisionOf_settle]
  by_cases hid : id = unit.id
  · subst hid
    rw [if_pos rfl, hpending]
    exact ⟨fun _ => ⟨unit, List.mem_append_right _ List.mem_cons_self, rfl⟩, fun _ => ⟨_, rfl⟩⟩
  · rw [if_neg hid, h id]
    constructor
    · rintro ⟨chosen, hmem, hchosen⟩
      exact ⟨chosen, List.mem_append_left _ hmem, hchosen⟩
    · rintro ⟨chosen, hmem, hchosen⟩
      rcases List.mem_append.mp hmem with hold | hnew
      · exact ⟨chosen, hold, hchosen⟩
      · rw [List.mem_singleton.mp hnew] at hchosen
        exact absurd hchosen.symm hid

theorem ParentsFirst.concat {chosen : List ContextUnit} (h : ParentsFirst chosen)
    (hparent : ∀ parentId, unit.parentId = some parentId →
      ∃ parent ∈ chosen, parent.sourceId = parentId) : ParentsFirst (chosen ++ [unit]) := by
  intro i chosenUnit parentId hi hparentId
  rw [List.getElem?_append] at hi
  split_ifs at hi with hlt
  · obtain ⟨j, parent, hj, hparentAt, hsource⟩ := h i chosenUnit parentId hi hparentId
    exact ⟨j, parent, hj, by rw [List.getElem?_append_left (hj.trans hlt)]; exact hparentAt, hsource⟩
  · have hlast : chosenUnit = unit ∧ i = chosen.length := by
      rw [List.getElem?_singleton] at hi
      split_ifs at hi with hzero
      exact ⟨(Option.some.inj hi).symm, by omega⟩
    obtain ⟨rfl, rfl⟩ := hlast
    obtain ⟨parent, hmem, hsource⟩ := hparent parentId hparentId
    obtain ⟨j, hj, hat⟩ := List.mem_iff_getElem.mp hmem
    refine ⟨j, parent, hj, ?_, hsource⟩
    rw [List.getElem?_append_left hj, List.getElem?_eq_getElem hj, hat]

section

variable (h : s.Sound limits usableTokenBudget) (hpending : s.records.decisionOf unit.id = some .pending)
  (hchunks : ∀ maxChunks, limits.maxChunks = some maxChunks → s.selectedUnits.length < maxChunks)
include h hpending hchunks

theorem Sound.select (hsources : ∀ maxSources, limits.maxSources = some maxSources → unit.sourceId ∉ s.selectedSources →
      s.selectedSources.size < maxSources)
    (hparent : ∀ parentId, unit.parentId = some parentId → parentId ∈ s.selectedSources)
    (hbudget : s.tokensUsed + unit.tokens ≤ usableTokenBudget) :
    (s.select unit).Sound limits usableTokenBudget where
  tokens := by
    show ((s.selectedUnits ++ [unit]).map ContextUnit.tokens).sum = s.tokensUsed + unit.tokens
    rw [List.map_append, List.sum_append, h.tokens]
    rfl
  budget := hbudget
  maxChunks maxChunks hmax := by
    have hlt := hchunks maxChunks hmax
    show (s.selectedUnits ++ [unit]).length ≤ maxChunks
    rw [List.length_append]
    exact hlt
  sources id := by
    show id ∈ s.selectedSources.add unit.sourceId ↔ ∃ chosen ∈ s.selectedUnits ++ [unit], chosen.sourceId = id
    rw [OrderedSet.mem_add, h.sources id]
    constructor
    · rintro (rfl | ⟨chosen, hmem, hchosen⟩)
      · exact ⟨unit, List.mem_append_right _ List.mem_cons_self, rfl⟩
      · exact ⟨chosen, List.mem_append_left _ hmem, hchosen⟩
    · rintro ⟨chosen, hmem, hchosen⟩
      rcases List.mem_append.mp hmem with hold | hnew
      · exact .inr ⟨chosen, hold, hchosen⟩
      · rw [List.mem_singleton.mp hnew] at hchosen
        exact .inl hchosen.symm
  maxSources maxSources hmax := by
    show (s.selectedSources.add unit.sourceId).size ≤ maxSources
    by_cases hmem : unit.sourceId ∈ s.selectedSources
    · rw [OrderedSet.add_of_mem hmem]
      exact h.maxSources maxSources hmax
    · rw [OrderedSet.size_add hmem]
      exact hsources maxSources hmax hmem
  parents := h.parents.concat (fun parentId hparentId => (h.sources parentId).mp (hparent parentId hparentId))
  recorded := h.recorded.select hpending

theorem Sound.consider : (s.consider limits usableTokenBudget unit).Sound limits usableTokenBudget := by
  unfold Selecting.consider
  split_ifs with hparent hsources hbudget
  · exact h.skip _ hpending
  · exact h.skip _ hpending
  · exact h.skip _ hpending
  · refine h.select hpending hchunks (fun maxSources hmax hmem => ?_) (fun parentId hid => ?_) (by omega)
    · by_contra hge
      refine hsources ⟨hmem, ?_⟩
      rw [hmax]
      exact decide_eq_true (not_lt.mp hge)
    · by_contra hnot
      refine hparent ?_
      rw [hid]
      exact decide_eq_true hnot

end

theorem Sound.run (units : List ContextUnit) {s : Selecting} (h : s.Sound limits usableTokenBudget) :
    (run limits usableTokenBudget s units).1.Sound limits usableTokenBudget := by
  induction units generalizing s with
  | nil => exact h
  | cons unit rest ih =>
    unfold Selecting.run
    split_ifs with hdecided hfull
    · exact ih h
    · exact h
    · refine ih (h.consider (not_not.mp hdecided) (fun maxChunks hmax => ?_))
      by_contra hge
      refine hfull ?_
      rw [hmax]
      exact decide_eq_true (not_lt.mp hge)

end

theorem consider_units (limits : SelectionLimits) (usableTokenBudget : Nat) (s : Selecting)
    (unit : ContextUnit) : (s.consider limits usableTokenBudget unit).records.map InternalTrace.unit
      = s.records.map InternalTrace.unit := by
  unfold consider
  split_ifs
  all_goals exact Records.units_settle _ _ _

theorem run_units (limits : SelectionLimits) (usableTokenBudget : Nat) (units : List ContextUnit)
    (s : Selecting) : (run limits usableTokenBudget s units).1.records.map InternalTrace.unit
      = s.records.map InternalTrace.unit := by
  induction units generalizing s with
  | nil => rfl
  | cons unit rest ih =>
    unfold run
    split_ifs
    · exact ih s
    · rfl
    · exact (ih _).trans (consider_units limits usableTokenBudget s unit)

theorem consider_chosen (limits : SelectionLimits) (usableTokenBudget : Nat) (s : Selecting)
    (unit : ContextUnit) : (s.consider limits usableTokenBudget unit).selectedUnits = s.selectedUnits ∨
      (s.consider limits usableTokenBudget unit).selectedUnits = s.selectedUnits ++ [unit] := by
  unfold consider
  split_ifs
  · exact .inl rfl
  · exact .inl rfl
  · exact .inl rfl
  · exact .inr rfl

theorem run_chosen (limits : SelectionLimits) (usableTokenBudget : Nat) (units : List ContextUnit)
    (s : Selecting) : ∃ chosen, chosen.Sublist units ∧
      (run limits usableTokenBudget s units).1.selectedUnits = s.selectedUnits ++ chosen := by
  induction units generalizing s with
  | nil => exact ⟨[], List.Sublist.refl _, (List.append_nil _).symm⟩
  | cons unit rest ih =>
    unfold run
    split_ifs
    · obtain ⟨chosen, hsub, heq⟩ := ih s
      exact ⟨chosen, hsub.cons unit, heq⟩
    · exact ⟨[], List.nil_sublist _, (List.append_nil _).symm⟩
    · obtain ⟨chosen, hsub, heq⟩ := ih (s.consider limits usableTokenBudget unit)
      rcases consider_chosen limits usableTokenBudget s unit with hsame | hnew
      · exact ⟨chosen, hsub.cons unit, by rw [heq, hsame]⟩
      · refine ⟨unit :: chosen, hsub.cons_cons unit, ?_⟩
        rw [heq, hnew, List.append_assoc]
        rfl

end Selecting

/-!
# Proofs: `select`

A selection is sound: the units that the gate lets pass have different keys, the loop chooses from them, and
the report accounts for every unit.
-/

theorem skipPending_units (reason : SelectionSkipReason) (units : List ContextUnit) (records : Records) :
    (skipPending reason records units).map InternalTrace.unit = records.map InternalTrace.unit := by
  unfold skipPending
  induction units generalizing records with
  | nil => rfl
  | cons unit units ih =>
    rw [List.foldl_cons, ih]
    split_ifs
    · exact Records.units_settle _ _ _
    · rfl

theorem skipPending_selected (reason : SelectionSkipReason) (units : List ContextUnit)
    (records : Records) (id : String) (k : Nat) :
    (skipPending reason records units).decisionOf id = some (.selected k) ↔
      records.decisionOf id = some (.selected k) := by
  unfold skipPending
  induction units generalizing records with
  | nil => exact Iff.rfl
  | cons unit units ih =>
    rw [List.foldl_cons, ih]
    split_ifs with hpending
    · refine Records.selected_settle_skipped records (fun k' hk' => ?_) k
      rw [hpending] at hk'
      cases hk'
    · exact Iff.rfl

theorem finishRecords_units (ordered : List ContextUnit) (outcome : Selecting × Bool) :
    (finishRecords ordered outcome).map InternalTrace.unit
      = outcome.1.records.map InternalTrace.unit := by
  unfold finishRecords
  rw [List.map_map]
  have hlast : (InternalTrace.unit ∘ fun r : InternalTrace =>
      if r.decision = .pending then { r with decision := .skipped .budget none } else r)
        = InternalTrace.unit := by
    funext r
    rw [Function.comp_apply]
    split_ifs <;> rfl
  rw [hlast]
  split_ifs
  · exact skipPending_units _ _ _
  · rfl

theorem finishRecords_settled (ordered : List ContextUnit) (outcome : Selecting × Bool)
    (hnodup : outcome.1.records.ids.Nodup) {r : InternalTrace} (hr : r ∈ finishRecords ordered outcome) :
    (∃ k, r.decision = .selected k ∧ outcome.1.records.decisionOf r.unit.id = some (.selected k)) ∨
    (∃ reason duplicateOf, r.decision = .skipped reason duplicateOf ∧
      ∀ k, outcome.1.records.decisionOf r.unit.id ≠ some (.selected k)) := by
  unfold finishRecords at hr
  generalize hrecords : (if outcome.2 = true then skipPending .maxChunks outcome.1.records ordered
    else outcome.1.records) = records at hr
  have hsame : records.ids = outcome.1.records.ids ∧ ∀ id k, records.decisionOf id = some (.selected k) ↔
        outcome.1.records.decisionOf id = some (.selected k) := by
    rw [← hrecords]
    split_ifs
    · exact ⟨Records.shown_congr ContextUnit.id (skipPending_units _ _ _), fun id k => skipPending_selected _ _ _ id k⟩
    · exact ⟨rfl, fun _ _ => Iff.rfl⟩
  obtain ⟨r', hr', rfl⟩ := List.mem_map.mp hr
  have hdecision := Records.decisionOf_of_mem (hsame.1 ▸ hnodup) hr'
  have hnot : (∀ k, r'.decision ≠ .selected k) → ∀ k, outcome.1.records.decisionOf r'.unit.id ≠ some (.selected k) := by
    intro hne k hk
    have hk' := (hsame.2 r'.unit.id k).mpr hk
    rw [hdecision] at hk'
    exact hne k (Option.some.inj hk')
  by_cases hpending : r'.decision = .pending
  · rw [if_pos hpending]
    refine .inr ⟨.budget, none, rfl, hnot (fun k hk => ?_)⟩
    rw [hpending] at hk
    cases hk
  · rw [if_neg hpending]
    cases hcase : r'.decision with
    | pending => exact absurd hcase hpending
    | selected k =>
      refine .inl ⟨k, rfl, (hsame.2 r'.unit.id k).mp ?_⟩
      rw [hdecision, hcase]
    | skipped reason duplicateOf =>
      refine .inr ⟨reason, duplicateOf, rfl, hnot (fun k hk => ?_)⟩
      rw [hcase] at hk
      cases hk

section

variable {host : Host} {options : ContextEngineOptions} {request : ContextSelectionRequest}
  {c : CheckedRequest} {sources : List SourceDescriptor} {units : List ContextUnit} {g : Gated}

theorem Gated.Sound.values_nodup {gate : FreshnessGate} (h : g.Sound host gate sources units) :
    (g.deduplicated.values.map ContextUnit.dedupeKey).Nodup := by
  have hkeys : g.deduplicated.values.map ContextUnit.dedupeKey = g.deduplicated.keys := by
    unfold OrderedMap.values OrderedMap.keys
    rw [List.map_map]
    refine List.map_congr_left fun p hp => ?_
    exact h.keys p.1 p.2 ((OrderedMap.get?_eq_some_iff _).mpr hp)
  rw [hkeys]
  exact g.deduplicated.keys_nodup

theorem Gated.Sound.start {gate : FreshnessGate} (h : g.Sound host gate sources units)
    (limits : SelectionLimits) (usableTokenBudget : Nat) :
    Selecting.Sound limits usableTokenBudget { records := g.records } where
  tokens := rfl
  budget := Nat.zero_le _
  maxChunks _ _ := Nat.zero_le _
  sources id := ⟨fun hmem => absurd hmem (OrderedSet.not_mem_empty id), by simp⟩
  maxSources _ _ := Nat.zero_le _
  parents := nofun
  recorded id := ⟨fun ⟨k, hk⟩ => absurd hk (h.unselected id k), by simp⟩

theorem Selecting.Sound.sources_length {limits : SelectionLimits} {usableTokenBudget : Nat}
    {s : Selecting} (h : s.Sound limits usableTokenBudget) :
    (s.selectedUnits.map ContextUnit.sourceId).dedup.length = s.selectedSources.size := by
  refine List.Perm.length_eq ?_
  rw [List.perm_ext_iff_of_nodup (List.nodup_dedup _) s.selectedSources.nodup]
  intro id
  rw [List.mem_dedup, List.mem_map]
  exact (h.sources id).symm

theorem run_sound (h : g.Sound host c.gate sources units) :
    let outcome := Selecting.run c.limits c.usableTokenBudget { records := g.records }
      (orderedUnits g.deduplicated.values c.limits.diversityWeight)
    SoundChoice host c sources units outcome.1.selectedUnits outcome.1.tokensUsed := by
  intro outcome
  have hsound : outcome.1.Sound c.limits c.usableTokenBudget :=
    (h.start c.limits c.usableTokenBudget).run _
  obtain ⟨chosen, hsub, hchosen⟩ := Selecting.run_chosen c.limits c.usableTokenBudget
    (orderedUnits g.deduplicated.values c.limits.diversityWeight) { records := g.records }
  have hperm := orderedUnits_perm g.deduplicated.values c.limits.diversityWeight
  refine ⟨?_, hsound.tokens, hsound.budget, hsound.maxChunks, ?_, ?_, hsound.parents⟩
  · intro unit hunit
    rw [show outcome.1.selectedUnits = chosen from hchosen] at hunit
    obtain ⟨key, hkey⟩ := (OrderedMap.mem_values _).mp (hperm.mem_iff.mp (hsub.subset hunit))
    exact h.offered key unit hkey
  · intro maxSources hmax
    rw [hsound.sources_length]
    exact hsound.maxSources maxSources hmax
  · rw [show outcome.1.selectedUnits = chosen from hchosen]
    refine List.Nodup.sublist (hsub.map ContextUnit.dedupeKey) ?_
    exact ((hperm.map ContextUnit.dedupeKey).nodup_iff).mpr h.values_nodup

theorem publicTrace_ids (records : Records) : (records.map publicTrace).map SelectionTraceEntry.id = records.ids := by
  unfold Records.ids
  rw [List.map_map]
  rfl

theorem report_sound (hnodup : (units.map ContextUnit.id).Nodup) (h : g.Sound host c.gate sources units)
    (ordered : List ContextUnit) :
    let outcome := Selecting.run c.limits c.usableTokenBudget { records := g.records } ordered
    SoundReport units outcome.1.selectedUnits
      (report c sources (finishRecords ordered outcome) outcome.1) := by
  intro outcome
  have hsound : outcome.1.Sound c.limits c.usableTokenBudget :=
    (h.start c.limits c.usableTokenBudget).run _
  have hids : outcome.1.records.ids = units.map ContextUnit.id :=
    (Records.shown_congr ContextUnit.id (Selecting.run_units c.limits c.usableTokenBudget ordered _)).trans h.ids
  have hfinal : Records.ids (finishRecords ordered outcome) = outcome.1.records.ids :=
    Records.shown_congr ContextUnit.id (finishRecords_units ordered outcome)
  refine ⟨rfl, ?_, hnodup, ?_, rfl⟩
  · show ((finishRecords ordered outcome).map publicTrace).map SelectionTraceEntry.id = _
    rw [publicTrace_ids, hfinal, hids]
  · intro entry hentry
    obtain ⟨r, hr, rfl⟩ := List.mem_map.mp hentry
    rcases finishRecords_settled ordered outcome (hids ▸ hnodup) hr with
      ⟨k, hdecision, hselected⟩ | ⟨reason, duplicateOf, hdecision, hnot⟩
    · refine .inl ⟨?_, ?_, (hsound.recorded r.unit.id).mp ⟨k, hselected⟩⟩
      · show r.decision.report.1 = .selected
        rw [hdecision]
        rfl
      · show r.decision.report.2 = .selected
        rw [hdecision]
        rfl
    · refine .inr ⟨?_, ⟨reason, ?_⟩, fun unit hunit hid => ?_⟩
      · show r.decision.report.1 = .skipped
        rw [hdecision]
        rfl
      · show r.decision.report.2 = .skipped reason
        rw [hdecision]
        rfl
      · obtain ⟨k, hk⟩ := (hsound.recorded r.unit.id).mpr ⟨unit, hunit, hid⟩
        exact hnot k hk

end

end Premise.ContextEngine
