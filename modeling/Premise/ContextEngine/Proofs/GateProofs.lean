import Premise.ContextEngine.Engine
import Premise.ContextEngine.Proofs.OrderProofs
import Premise.Control.Except

/-!
# Proofs: units

Every unit gets an id of its own, and a place in the hierarchy does not change it.
-/

namespace Premise.ContextEngine

open Collections Control Js

theorem candidateIds_nodup (baseId : String) (n : Nat) :
    (baseId :: (List.range n).map (fun i => baseId ++ "~" ++ toString (i + 1))).Nodup := by
  rw [List.nodup_cons]
  constructor
  · intro hmem
    obtain ⟨i, -, heq⟩ := List.mem_map.mp hmem
    have hlength := congrArg (fun s : String => s.toList.length) heq
    simp only [String.toList_append, List.length_append] at hlength
    have hone : "~".toList.length = 1 := rfl
    omega
  · exact List.Nodup.map (fun i j heq => Nat.succ.inj (append_toString_injective heq)) List.nodup_range

theorem freshId_not_mem (usedIds : OrderedSet String) (baseId : String) : freshId usedIds baseId ∉ usedIds := by
  unfold freshId
  generalize hids : baseId :: (List.range usedIds.size).map (fun i => baseId ++ "~" ++ toString (i + 1))
    = ids
  cases hfind : ids.find? (fun id => decide (id ∉ usedIds)) with
  | some id =>
    have hfree := List.find?_some hfind
    exact of_decide_eq_true hfree
  | none =>
    have hnodup := candidateIds_nodup baseId usedIds.size
    rw [hids] at hnodup
    have hlength : ids.length = usedIds.size + 1 := by
      rw [← hids]
      simp
    have hsub : ids ⊆ usedIds.elems := by
      intro id hid
      have hused := List.find?_eq_none.mp hfind id hid
      rw [decide_eq_true_eq, not_not] at hused
      exact hused
    have hle := (hnodup.subperm hsub).length_le
    unfold OrderedSet.size at hlength
    omega

/-- The ids in use are those of the units. -/
structure Materialized.Distinct (m : Materialized) : Prop where
  ids : m.usedIds.elems = m.units.map ContextUnit.id

variable {host : Host} {source : SourceDescriptor} {m : Materialized}

theorem Materialized.Distinct.push (h : m.Distinct) (segment : RawSegment) (pieces : Nat)
    (piece : (String × Nat) × Nat) : (m.push host source segment pieces piece).Distinct where
  ids := by
    unfold Materialized.push
    rw [OrderedSet.elems_add_of_not_mem (freshId_not_mem _ _), h.ids, List.map_append]
    rfl

theorem Materialized.Distinct.pushes (h : m.Distinct) (segment : RawSegment) (n : Nat)
    (pieces : List ((String × Nat) × Nat)) :
    Materialized.Distinct (pieces.foldl (Materialized.push host source segment n) m) := by
  induction pieces generalizing m with
  | nil => exact h
  | cons piece pieces ih => exact ih (h.push segment n piece)

theorem Materialized.Distinct.segment (h : m.Distinct) {chunkSizeTokens : Nat}
    {estimator : TokenEstimator} {segment : RawSegment} {m' : Materialized}
    (hsegment : m.segment host source chunkSizeTokens estimator segment = .ok m') : m'.Distinct := by
  obtain ⟨pieces, -, hrest⟩ := of_bind_ok hsegment
  cases hrest
  exact h.pushes segment pieces.length pieces.zipIdx

theorem Materialized.Distinct.materialize (h : m.Distinct) {chunkSizeTokens : Nat}
    {estimator : TokenEstimator} {m' : Materialized}
    (hsource : materializeUnits host chunkSizeTokens estimator m source = .ok m') : m'.Distinct :=
  of_foldlM_ok (fun _ m => m.Distinct) (fun _ _ _ _ _ hm hstep => hm.segment hstep) h hsource

theorem placeUnits_ids (sources : Sources) (units : List ContextUnit) :
    (placeUnits sources units).map ContextUnit.id = units.map ContextUnit.id := by
  have key : ∀ (l : List ContextUnit) (p : List ContextUnit × HierarchyMemo),
      (l.foldl (fun (p : List ContextUnit × HierarchyMemo) unit =>
        let hierarchy := unitHierarchy sources p.2 unit
        (p.1 ++ [placeUnit unit hierarchy.1], hierarchy.2)) p).1.map ContextUnit.id
        = p.1.map ContextUnit.id ++ l.map ContextUnit.id := by
    intro l
    induction l with
    | nil => simp
    | cons unit l ih =>
      intro p
      rw [List.foldl_cons, ih, List.map_append, List.map_cons, List.append_assoc]
      rfl
  exact key units ([], {})

theorem candidateUnits_nodup {c : CheckedRequest} {sources : List SourceDescriptor}
    {units : List ContextUnit} (h : candidateUnits host c sources = .ok units) :
    (units.map ContextUnit.id).Nodup := by
  obtain ⟨m, hfold, hrest⟩ := of_bind_ok h
  cases hrest
  have hdistinct : m.Distinct := of_foldlM_ok (fun _ m => Materialized.Distinct m)
    (fun _ _ _ _ _ hm hstep => hm.materialize hstep) ⟨rfl⟩ hfold
  rw [placeUnits_ids, ← hdistinct.ids]
  exact m.usedIds.nodup

/-!
# Proofs: the gate

The gate judges a unit as it says, and a unit that passes it stands for its key, unless a better one does.
-/

namespace Records

variable {records : Records}

def ids (records : Records) : List String := records.map (fun r => r.unit.id)

theorem units_settle (records : Records) (unitId : String) (decision : Decision) :
    (records.settle unitId decision).map InternalTrace.unit = records.map InternalTrace.unit := by
  unfold settle
  rw [List.map_map]
  refine List.map_congr_left fun r _ => ?_
  rw [Function.comp_apply]
  split_ifs <;> rfl

theorem shown_congr {records records' : Records} {α : Type} (f : ContextUnit → α)
    (h : records.map InternalTrace.unit = records'.map InternalTrace.unit) :
    records.map (fun r => f r.unit) = records'.map (fun r => f r.unit) := by
  have hmap := congrArg (List.map f) h
  rwa [List.map_map, List.map_map] at hmap

theorem ids_settle (records : Records) (unitId : String) (decision : Decision) :
    (records.settle unitId decision).ids = records.ids :=
  shown_congr ContextUnit.id (units_settle records unitId decision)

theorem ids_refresh (records : Records) (unit : ContextUnit) : (records.refresh unit).ids = records.ids := by
  unfold ids refresh
  rw [List.map_map]
  refine List.map_congr_left fun r _ => ?_
  rw [Function.comp_apply]
  split_ifs with hid
  · exact hid.symm
  · rfl

theorem decisionOf_cons (r : InternalTrace) (records : Records) (unitId : String) : decisionOf (r :: records) unitId =
      if r.unit.id = unitId then some r.decision else decisionOf records unitId := by
  unfold decisionOf
  by_cases hid : r.unit.id = unitId
  · simp [hid]
  · simp [hid]

theorem decisionOf_settle (records : Records) (unitId id : String) (decision : Decision) :
    (records.settle unitId decision).decisionOf id =
      if id = unitId then (records.decisionOf id).map (fun _ => decision) else records.decisionOf id := by
  induction records with
  | nil =>
    show (none : Option Decision) = _
    split_ifs <;> rfl
  | cons r records ih =>
    unfold settle at ih ⊢
    rw [List.map_cons, decisionOf_cons, decisionOf_cons, ih]
    by_cases hid : id = unitId
    · subst hid
      simp only [if_true]
      by_cases hr : r.unit.id = id
      · simp [hr]
      · simp [hr]
    · rw [if_neg hid, if_neg hid]
      by_cases hr : r.unit.id = unitId
      · have hne : ¬ r.unit.id = id := fun heq => hid (heq.symm.trans hr)
        rw [if_pos hr, if_neg hne, if_neg hne]
      · simp [hr]

theorem decisionOf_refresh (records : Records) (unit : ContextUnit) (id : String) :
    (records.refresh unit).decisionOf id = records.decisionOf id := by
  induction records with
  | nil => rfl
  | cons r records ih =>
    unfold refresh at ih ⊢
    rw [List.map_cons, decisionOf_cons, decisionOf_cons, ih]
    by_cases hr : r.unit.id = unit.id
    · rw [if_pos hr, hr]
    · rw [if_neg hr]

theorem decisionOf_of_mem (hnodup : records.ids.Nodup) {r : InternalTrace} (hr : r ∈ records) :
    records.decisionOf r.unit.id = some r.decision := by
  induction records with
  | nil => exact absurd hr List.not_mem_nil
  | cons r' records ih =>
    unfold ids at hnodup
    rw [List.map_cons, List.nodup_cons] at hnodup
    rw [decisionOf_cons]
    rcases List.mem_cons.mp hr with rfl | hmem
    · rw [if_pos rfl]
    · rw [if_neg, ih hnodup.2 hmem]
      intro heq
      exact hnodup.1 (heq ▸ List.mem_map.mpr ⟨r, hmem, rfl⟩)

theorem selected_settle_skipped (records : Records) {unitId id : String} {reason : SelectionSkipReason}
    {duplicateOf : Option String} (hnot : ∀ k, records.decisionOf unitId ≠ some (.selected k)) (k : Nat) :
    (records.settle unitId (.skipped reason duplicateOf)).decisionOf id = some (.selected k) ↔
      records.decisionOf id = some (.selected k) := by
  rw [decisionOf_settle]
  split_ifs with hid
  · subst hid
    refine ⟨fun hmap => ?_, fun hselected => absurd hselected (hnot k)⟩
    obtain ⟨_, -, heq⟩ := Option.map_eq_some_iff.mp hmap
    cases heq
  · exact Iff.rfl

end Records

/-! ## The gate -/

section Gate

variable {host : Host} {gate : FreshnessGate} {source : SourceDescriptor} {unit unit' : ContextUnit}
  {reason : Option SelectionSkipReason}

theorem timeMillis_ok {value : Option TimeValue} {label : String} {instant : Option ℚ}
    (h : timeMillis host value label = .ok instant) : instant = instantOf host value := by
  unfold timeMillis at h
  unfold instantOf
  cases value with
  | none => exact (Except.ok.inj h).symm
  | some value =>
    cases value with
    | text value =>
      dsimp only at h
      show instant = host.dateParse value
      cases hparse : host.dateParse value with
      | none =>
        rw [hparse] at h
        cases h
      | some result =>
        rw [hparse] at h
        exact (Except.ok.inj h).symm
    | number value =>
      dsimp only at h
      show instant = value.toFinite
      cases hfinite : value.toFinite with
      | none =>
        rw [hfinite] at h
        cases h
      | some result =>
        rw [hfinite] at h
        exact (Except.ok.inj h).symm

theorem toFinite_eq_some {value : Number} {q : ℚ} : value.toFinite = some q ↔ value = .finite q := by
  cases value with
  | nan | infinity => exact ⟨nofun, nofun⟩
  | finite value => exact ⟨fun h => congrArg Number.finite (Option.some.inj h),
      fun h => congrArg some (Number.finite.inj h)⟩

theorem outdated_iff {now : ℚ} : ((instantOf host source.expiresAt).any (fun expiresAt => decide (expiresAt ≤ now)) = true ∨
      (gate.maxAgeMs.bind Number.toFinite).any (fun maxAgeMs =>
        (instantOf host source.observedAt).any (fun observedAt =>
          decide (maxAgeMs ≤ now - observedAt))) = true) ↔ Outdated host gate source now := by
  unfold Outdated
  refine or_congr ?_ ?_
  · rw [Option.any_eq_true]
    exact exists_congr fun e => and_congr_right (fun _ => decide_eq_true_iff)
  · rw [Option.any_eq_true]
    constructor
    · rintro ⟨maxAgeMs, hage, hany⟩
      obtain ⟨number, hnumber, hfinite⟩ := Option.bind_eq_some_iff.mp hage
      obtain ⟨observedAt, hobserved, hle⟩ := (Option.any_eq_true _ _).mp hany
      rw [toFinite_eq_some.mp hfinite] at hnumber
      exact ⟨maxAgeMs, observedAt, hnumber, hobserved, of_decide_eq_true hle⟩
    · rintro ⟨maxAgeMs, observedAt, hage, hobserved, hle⟩
      refine ⟨maxAgeMs, by rw [hage]; rfl, ?_⟩
      exact (Option.any_eq_true _ _).mpr ⟨observedAt, hobserved, decide_eq_true hle⟩

theorem gateUnit_ok (h : gateUnit host gate source unit = .ok (reason, unit')) :
    unit' = { unit with freshness := unit'.freshness } ∧
      (reason = none → PassesGate host gate source unit unit'.freshness) := by
  unfold gateUnit at h
  split_ifs at h with htext hinvalid
  · cases h
    exact ⟨rfl, nofun⟩
  · cases h
    exact ⟨rfl, nofun⟩
  obtain ⟨instant, hnow, h⟩ := of_bind_ok h
  obtain ⟨expiresAt, hexpires, h⟩ := of_bind_ok h
  obtain ⟨observedAt, hobserved, h⟩ := of_bind_ok h
  rw [timeMillis_ok hnow, timeMillis_ok hexpires, timeMillis_ok hobserved] at h
  have hinstant : (instantOf host gate.now).getD (host.now unit.ordinal) = gateInstant host gate unit := rfl
  rw [hinstant] at h
  have houtdated := @outdated_iff host gate source (gateInstant host gate unit)
  dsimp only at h
  generalize (instantOf host source.expiresAt).any
    (fun expiresAt => decide (expiresAt ≤ gateInstant host gate unit)) = expired at h houtdated
  generalize (gate.maxAgeMs.bind Number.toFinite).any (fun maxAgeMs =>
    (instantOf host source.observedAt).any (fun observedAt =>
      decide (maxAgeMs ≤ gateInstant host gate unit - observedAt))) = tooOld at h houtdated
  generalize hstatus : (if unit.freshness = .fresh ∧ (expired = true ∨ tooOld = true)
    then FreshnessStatus.stale else unit.freshness) = status at h
  have hcurrent : (unit.freshness = .fresh → Outdated host gate source (gateInstant host gate unit) → status = .stale) ∧
      (¬ (unit.freshness = .fresh ∧ Outdated host gate source (gateInstant host gate unit)) →
        status = unit.freshness) := by
    refine ⟨fun hfresh hout => ?_, fun hnot => ?_⟩
    · rw [← hstatus, if_pos ⟨hfresh, houtdated.mpr hout⟩]
    · rw [← hstatus, if_neg (fun hcond => hnot ⟨hcond.1, houtdated.mp hcond.2⟩)]
  have hvalid : status ≠ .invalid := by
    rw [← hstatus]
    split_ifs
    · exact nofun
    · exact hinvalid
  by_cases hstale : status = .stale ∧ gate.allowStale ≠ some true
      ∧ ¬ (gate.allowStaleSummaries = some true ∧ unit.kind = .summary)
  · rw [if_pos hstale] at h
    cases h
    exact ⟨rfl, nofun⟩
  rw [if_neg hstale] at h
  by_cases hunknown : status = .unknown ∧ gate.allowUnknown ≠ some true
  · rw [if_pos hunknown] at h
    cases h
    exact ⟨rfl, nofun⟩
  · rw [if_neg hunknown] at h
    cases h
    refine ⟨rfl, fun _ => ⟨htext, hcurrent.1, hcurrent.2, ?_⟩⟩
    show Allowed gate unit.kind status
    cases status with
    | fresh => trivial
    | stale =>
      by_contra hnot
      unfold Allowed at hnot
      rw [not_or] at hnot
      exact hstale ⟨rfl, hnot.1, hnot.2⟩
    | unknown =>
      by_contra hnot
      exact hunknown ⟨rfl, hnot⟩
    | invalid => exact absurd rfl hvalid

end Gate

/-! ## Deduplication -/

/-- What the gate keeps: no unit is selected yet, and under each key stands a unit that may be offered. -/
structure Gated.Sound (host : Host) (gate : FreshnessGate) (sources : List SourceDescriptor)
    (units : List ContextUnit) (g : Gated) : Prop where
  ids : g.records.ids = units.map ContextUnit.id
  unselected : ∀ id k, g.records.decisionOf id ≠ some (.selected k)
  keys : ∀ key unit, g.deduplicated.get? key = some unit → unit.dedupeKey = key
  offered : ∀ key unit, g.deduplicated.get? key = some unit → Offered host gate sources units unit

section Deduplication

variable {host : Host} {gate : FreshnessGate} {sources : List SourceDescriptor}
  {units : List ContextUnit} {unit : ContextUnit} {g g' : Gated}

section

variable (h : g.Sound host gate sources units)
include h

theorem Gated.Sound.records {records : Records}
    (hids : records.ids = g.records.ids)
    (hselected : ∀ id k, records.decisionOf id = some (.selected k) → g.records.decisionOf id = some (.selected k)) :
    Gated.Sound host gate sources units { g with records } where
  ids := hids.trans h.ids
  unselected id k hk := h.unselected id k (hselected id k hk)
  keys := h.keys
  offered := h.offered

theorem Gated.Sound.skip (unitId : String)
    (reason : SelectionSkipReason) (duplicateOf : Option String) :
    Gated.Sound host gate sources units { g with records := g.records.settle unitId (.skipped reason duplicateOf) } :=
  h.records (Records.ids_settle _ _ _) (fun _ k hk => (Records.selected_settle_skipped _ (h.unselected unitId) k).mp hk)

theorem Gated.Sound.set
    (hunit : Offered host gate sources units unit) :
    Gated.Sound host gate sources units
      { g with deduplicated := g.deduplicated.set unit.dedupeKey unit } where
  ids := h.ids
  unselected := h.unselected
  keys key other hother := by
    rw [OrderedMap.get?_set] at hother
    split_ifs at hother with hkey
    · cases hother
      exact hkey.symm
    · exact h.keys key other hother
  offered key other hother := by
    rw [OrderedMap.get?_set] at hother
    split_ifs at hother with hkey
    · cases hother
      exact hunit
    · exact h.offered key other hother

theorem Gated.Sound.deduplicate
    (hunit : Offered host gate sources units unit) :
    (g.deduplicate unit).Sound host gate sources units := by
  unfold Gated.deduplicate
  cases g.deduplicated.get? unit.dedupeKey with
  | none => exact h.set hunit
  | some previous =>
    dsimp only
    split_ifs
    · exact (h.skip previous.id .duplicate (some unit.id)).set hunit
    · exact h.skip unit.id .duplicate (some previous.id)

theorem Gated.Sound.step (hmem : unit ∈ units)
    (hstep : g.step host gate (sourceMap sources) unit = .ok g') : g'.Sound host gate sources units := by
  unfold Gated.step at hstep
  cases hsource : (sourceMap sources).get? unit.sourceId with
  | none =>
    rw [hsource] at hstep
    cases hstep
  | some source =>
    rw [hsource] at hstep
    dsimp only at hstep
    cases hgate : gateUnit host gate source unit with
    | error err =>
      rw [hgate] at hstep
      cases hstep
    | ok p =>
      obtain ⟨reason, current⟩ := p
      rw [hgate] at hstep
      cases hstep
      obtain ⟨hcurrent, hpasses⟩ := gateUnit_ok hgate
      have hrefresh : Gated.Sound host gate sources units { g with records := g.records.refresh current } :=
        h.records (Records.ids_refresh _ _) (fun id k hk => (Records.decisionOf_refresh _ _ id).symm.trans hk)
      unfold Gated.enter
      dsimp only
      cases reason with
      | some reason => exact hrefresh.skip _ _ _
      | none =>
        cases current.hierarchyIssue with
        | some issue => exact hrefresh.skip _ _ _
        | none =>
          refine hrefresh.deduplicate ⟨unit, hmem, hcurrent, source, ?_, ?_, hpasses rfl⟩
          · have hentry := OrderedMap.mem_of_mem_ofList ((OrderedMap.get?_eq_some_iff _).mp hsource)
            obtain ⟨other, hother, heq⟩ := List.mem_map.mp hentry
            rw [← (Prod.mk.inj heq).2]
            exact hother
          · have hentry := OrderedMap.mem_of_mem_ofList ((OrderedMap.get?_eq_some_iff _).mp hsource)
            obtain ⟨other, -, heq⟩ := List.mem_map.mp hentry
            rw [← (Prod.mk.inj heq).2]
            exact (Prod.mk.inj heq).1

end

theorem ids_pending (units : List ContextUnit) :
    Records.ids (units.map (fun unit => ⟨unit, .pending⟩)) = units.map ContextUnit.id := by
  unfold Records.ids
  rw [List.map_map]
  rfl

theorem decisionOf_pending (units : List ContextUnit) (id : String) (k : Nat) :
    Records.decisionOf (units.map (fun unit => ⟨unit, .pending⟩)) id ≠ some (.selected k) := by
  induction units with
  | nil => exact nofun
  | cons unit units ih =>
    rw [List.map_cons, Records.decisionOf_cons]
    split_ifs
    · exact nofun
    · exact ih

theorem gateUnits_sound (h : gateUnits host gate (sourceMap sources) units = .ok g) : g.Sound host gate sources units := by
  have hinit : Gated.Sound host gate sources units { records := units.map (fun unit => ⟨unit, .pending⟩) } :=
    ⟨ids_pending units, decisionOf_pending units, by simp, by simp⟩
  exact of_foldlM_ok (fun _ g => g.Sound host gate sources units)
    (fun _ _ hmem _ _ hg hstep => hg.step hmem hstep) hinit h

end Deduplication

end Premise.ContextEngine
