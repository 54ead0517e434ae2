import Premise.ContextEngine.Proofs.SelectProofs

/-!
# Skips for a parent

A unit is placed by its own parent, so a unit of a source may lie deeper than the source, and come after the
units below the source.
-/

namespace Premise.ContextEngine

open Collections Control Js

/-- No unit is skipped for a parent of which a unit is selected. -/
def NoFalseParentSkip (result : ContextSelectionResult) : Prop :=
  ∀ entry ∈ result.trace, entry.reason = .skipped .parentNotSelected →
    ∀ parentId ∈ entry.parentId, ∀ chosen ∈ result.selected, chosen.sourceId ≠ parentId

instance : DecidablePred NoFalseParentSkip := fun result =>
  inferInstanceAs (Decidable (∀ entry ∈ result.trace, entry.reason = .skipped .parentNotSelected →
    ∀ parentId ∈ entry.parentId, ∀ chosen ∈ result.selected, chosen.sourceId ≠ parentId))

/-- The depth of a source whose parents are all there. -/
inductive Depth (sources : Sources) : String → Nat → Prop
  | root {sourceId : String} {source : SourceDescriptor} (hsource : sources.get? sourceId = some source)
      (hparent : source.parentId = none) : Depth sources sourceId 0
  | child {sourceId parentId : String} {source : SourceDescriptor} {depth : Nat}
      (hsource : sources.get? sourceId = some source) (hparent : source.parentId = some parentId)
      (hdepth : Depth sources parentId depth) : Depth sources sourceId (depth + 1)

/-- The unit has a parent that is at least as deep as the unit's own source. -/
def Deeper (sources : Sources) (unit : ContextUnit) : Prop :=
  ∃ parentId own other, unit.parentId = some parentId ∧ Depth sources unit.sourceId own ∧
    Depth sources parentId other ∧ own ≤ other

namespace Selecting

def Room (limits : SelectionLimits) (s : Selecting) : Prop :=
  ∀ maxChunks ∈ limits.maxChunks, s.selectedUnits.length < maxChunks

/-- A unit whose turn it is would be skipped for its parent. -/
def Waits (limits : SelectionLimits) (s : Selecting) (unit : ContextUnit) : Prop :=
  s.Room limits ∧ ∃ parentId ∈ unit.parentId, parentId ∉ s.selectedSources

/-- A unit whose turn it is would be selected. -/
structure Admits (limits : SelectionLimits) (usableTokenBudget : Nat) (s : Selecting)
    (unit : ContextUnit) : Prop where
  room : s.Room limits
  parent : ∀ parentId ∈ unit.parentId, parentId ∈ s.selectedSources
  sources : unit.sourceId ∈ s.selectedSources ∨
    ∀ maxSources ∈ limits.maxSources, s.selectedSources.size < maxSources
  budget : s.tokensUsed + unit.tokens ≤ usableTokenBudget

def turn (limits : SelectionLimits) (usableTokenBudget : Nat) (s : Selecting)
    (before : List ContextUnit) : Selecting :=
  (run limits usableTokenBudget s before).1

/-- Some unit is, at its turn, as `P` says. -/
def AtTurn (limits : SelectionLimits) (usableTokenBudget : Nat) (P : Selecting → ContextUnit → Prop)
    (s : Selecting) (units : List ContextUnit) : Prop :=
  ∃ before unit after, units = before ++ unit :: after ∧ P (s.turn limits usableTokenBudget before) unit

/-- A unit waits for a source of which a deeper unit comes later, and is admitted at its turn. -/
def Overtaken (sources : Sources) (limits : SelectionLimits) (usableTokenBudget : Nat) (s : Selecting)
    (units : List ContextUnit) : Prop :=
  ∃ before unit middle parent after, units = before ++ unit :: (middle ++ parent :: after) ∧
    unit.parentId = some parent.sourceId ∧ Deeper sources parent ∧
    (s.turn limits usableTokenBudget before).Waits limits unit ∧
    (s.turn limits usableTokenBudget (before ++ unit :: middle)).Admits limits usableTokenBudget parent

end Selecting

/-- In the loop of the request a unit waits for a source that still gets a unit. -/
def ParentOvertaken (host : Host) (options : ContextEngineOptions) (request : ContextSelectionRequest) :
    Prop :=
  ∃ c sources units g, checkRequest options request = .ok c ∧ collectSources c.candidates = .ok sources ∧
    candidateUnits host c sources = .ok units ∧
    gateUnits host c.gate (sourceMap sources) units = .ok g ∧
    Selecting.Overtaken (sourceMap sources) c.limits c.usableTokenBudget { records := g.records }
      (orderedUnits g.deduplicated.values c.limits.diversityWeight)

/-! ## Places -/

section Places

variable {sources : Sources} {m : HierarchyMemo} {unit : ContextUnit}

theorem Depth.unique {sourceId : String} {depth : Nat} (h : Depth sources sourceId depth) :
    ∀ {other : Nat}, Depth sources sourceId other → depth = other := by
  induction h with
  | root hsource hparent =>
    intro other hother
    cases hother with
    | root _ _ => rfl
    | child hsource' hparent' _ =>
      obtain rfl := Option.some.inj (hsource.symm.trans hsource')
      rw [hparent] at hparent'
      cases hparent'
  | child hsource hparent _ ih =>
    intro other hother
    cases hother with
    | root hsource' hparent' =>
      obtain rfl := Option.some.inj (hsource.symm.trans hsource')
      rw [hparent] at hparent'
      cases hparent'
    | child hsource' hparent' hdepth' =>
      obtain rfl := Option.some.inj (hsource.symm.trans hsource')
      obtain rfl := Option.some.inj (hparent.symm.trans hparent')
      rw [ih hdepth']

theorem depth_of_issue {sourceId : String} (issue : HierarchyIssue) :
    ∀ depth, (⟨0, some issue⟩ : HierarchyInfo) = ⟨depth, none⟩ → Depth sources sourceId depth :=
  fun _ h => absurd (congrArg HierarchyInfo.issue h) nofun

def HierarchyMemo.Sound (sources : Sources) (m : HierarchyMemo) : Prop :=
  ∀ sourceId depth, m.memo.get? sourceId = some ⟨depth, none⟩ → Depth sources sourceId depth

theorem HierarchyMemo.Sound.set (h : m.Sound sources) {sourceId : String} {info : HierarchyInfo}
    (hinfo : ∀ depth, info = ⟨depth, none⟩ → Depth sources sourceId depth)
    (visiting : OrderedSet String) : HierarchyMemo.Sound sources ⟨m.memo.set sourceId info, visiting⟩ := by
  intro other depth hget
  rw [OrderedMap.get?_set] at hget
  split_ifs at hget with hother
  · rw [hother]
    exact hinfo depth (Option.some.inj hget)
  · exact h other depth hget

theorem below_eq {parent : HierarchyInfo} {depth : Nat} (h : parent.below = ⟨depth, none⟩) :
    ∃ above, parent = ⟨above, none⟩ ∧ depth = above + 1 := by
  obtain ⟨above, issue⟩ := parent
  cases issue with
  | none => exact ⟨above, rfl, (congrArg HierarchyInfo.depth h).symm⟩
  | some issue => exact absurd (congrArg HierarchyInfo.issue h) nofun

theorem inspectSourceHierarchy_sound (fuel : Nat) : ∀ (m : HierarchyMemo) (sourceId : String), m.Sound sources →
      (inspectSourceHierarchy sources fuel m sourceId).2.Sound sources ∧
      ∀ depth, (inspectSourceHierarchy sources fuel m sourceId).1 = ⟨depth, none⟩ →
        Depth sources sourceId depth := by
  induction fuel with
  | zero => exact fun m sourceId h => ⟨h, depth_of_issue _⟩
  | succ fuel ih =>
    intro m sourceId h
    rw [inspectSourceHierarchy.eq_2]
    cases hmemo : m.memo.get? sourceId with
    | some cached =>
      refine ⟨h, fun depth hcached => h sourceId depth ?_⟩
      rw [hmemo, ← hcached]
    | none =>
      split_ifs with hvisiting
      · exact ⟨h, depth_of_issue _⟩
      cases hsource : sources.get? sourceId with
      | none => exact ⟨h.set (depth_of_issue _) _, depth_of_issue _⟩
      | some source =>
        dsimp only
        cases hparent : source.parentId with
        | none =>
          have hroot : ∀ depth, (⟨0, none⟩ : HierarchyInfo) = ⟨depth, none⟩ → Depth sources sourceId depth := by
            intro depth hinfo
            obtain rfl := congrArg HierarchyInfo.depth hinfo
            exact Depth.root hsource hparent
          exact ⟨h.set hroot _, hroot⟩
        | some parentId =>
          dsimp only
          split_ifs with hhas
          · obtain ⟨hsound, hfound⟩ := ih { m with visiting := m.visiting.add sourceId } parentId h
            have hbelow : ∀ depth, (inspectSourceHierarchy sources fuel
                { m with visiting := m.visiting.add sourceId } parentId).1.below = ⟨depth, none⟩ →
                Depth sources sourceId depth := by
              intro depth hinfo
              obtain ⟨above, habove, rfl⟩ := below_eq hinfo
              exact Depth.child hsource hparent (hfound above habove)
            exact ⟨hsound.set hbelow _, hbelow⟩
          · exact ⟨h.set (depth_of_issue _) _, depth_of_issue _⟩

/-- The unit's place is that of its source, or below its parent. -/
structure Placed (sources : Sources) (unit : ContextUnit) : Prop where
  root : unit.parentId = none → Depth sources unit.sourceId unit.depth
  below : ∀ parentId, unit.parentId = some parentId →
    ∃ above, Depth sources parentId above ∧ unit.depth = above + 1
  phase : unit.phase = unit.depth * 2 + if unit.kind = .summary then 0 else 1

theorem unitHierarchy_sound (h : m.Sound sources) (unit : ContextUnit) :
    (unitHierarchy sources m unit).2.Sound sources ∧ ((unitHierarchy sources m unit).1.issue = none →
        Placed sources (placeUnit unit (unitHierarchy sources m unit).1)) := by
  unfold unitHierarchy
  cases hparent : unit.parentId with
  | none =>
    obtain ⟨hsound, hfound⟩ := inspectSourceHierarchy_sound (sources.size + 1) m unit.sourceId h
    refine ⟨hsound, fun hissue => ⟨fun _ => hfound _ ?_, fun parentId hid => ?_, rfl⟩⟩
    · exact congrArg (HierarchyInfo.mk _) hissue
    · exact absurd (hparent.symm.trans hid) nofun
  | some parentId =>
    dsimp only
    split_ifs with hself
    · exact ⟨h, nofun⟩
    · obtain ⟨hsound, hfound⟩ := inspectSourceHierarchy_sound (sources.size + 1) m parentId h
      refine ⟨hsound, fun hissue => ⟨fun hid => ?_, fun other hid => ?_, rfl⟩⟩
      · exact absurd (hparent.symm.trans hid) nofun
      · obtain rfl := Option.some.inj (hparent.symm.trans hid)
        obtain ⟨above, habove, hdepth⟩ := below_eq (congrArg (HierarchyInfo.mk _) hissue)
        exact ⟨above, hfound above habove, hdepth⟩

theorem placeUnits_placed (sources : Sources) (units : List ContextUnit) :
    ∀ unit ∈ placeUnits sources units, unit.hierarchyIssue = none → Placed sources unit := by
  suffices hkey : ∀ (p : List ContextUnit × HierarchyMemo), p.2.Sound sources →
      (∀ unit ∈ p.1, unit.hierarchyIssue = none → Placed sources unit) →
      ∀ unit ∈ (units.foldl (fun (p : List ContextUnit × HierarchyMemo) unit =>
        (p.1 ++ [placeUnit unit (unitHierarchy sources p.2 unit).1],
          (unitHierarchy sources p.2 unit).2)) p).1, unit.hierarchyIssue = none → Placed sources unit from
    hkey ([], {}) nofun nofun
  induction units with
  | nil => exact fun p _ hplaced => hplaced
  | cons unit units ih =>
    intro p hsound hplaced
    obtain ⟨hsound', hunit⟩ := unitHierarchy_sound hsound unit
    refine ih _ hsound' fun other hother hissue => ?_
    rcases List.mem_append.mp hother with hold | hnew
    · exact hplaced other hold hissue
    · rw [List.mem_singleton.mp hnew] at hissue ⊢
      exact hunit hissue

theorem Placed.deeper {parent : ContextUnit} (hparent : Placed sources parent) (hunit : Placed sources unit)
    (hid : unit.parentId = some parent.sourceId) (hphase : unit.phase ≤ parent.phase) :
    Deeper sources parent := by
  obtain ⟨own, hown, hdepth⟩ := hunit.below parent.sourceId hid
  have hlow : (own + 1) * 2 ≤ unit.phase := by
    rw [hunit.phase, hdepth]
    exact Nat.le_add_right _ _
  have hhigh : parent.phase ≤ parent.depth * 2 + 1 := by
    rw [hparent.phase]
    split_ifs <;> omega
  cases hcase : parent.parentId with
  | none =>
    have hsame := hown.unique (hparent.root hcase)
    omega
  | some parentId =>
    obtain ⟨other, hother, hdeep⟩ := hparent.below parentId hcase
    exact ⟨parentId, own, other, hcase, hown, hother, by omega⟩

end Places

/-! ## The loop -/

namespace Selecting

section Loop

variable {limits : SelectionLimits} {usableTokenBudget : Nat} {s : Selecting} {unit : ContextUnit}
  {rest units : List ContextUnit} {P : Selecting → ContextUnit → Prop}

theorem room_iff : s.Room limits ↔
    ¬ limits.maxChunks.any (fun maxChunks => decide (maxChunks ≤ s.selectedUnits.length)) = true := by
  unfold Room
  rw [Option.any_eq_true]
  constructor
  · rintro hroom ⟨maxChunks, hmax, hle⟩
    exact absurd (of_decide_eq_true hle) (Nat.not_le.mpr (hroom maxChunks hmax))
  · intro hnot maxChunks hmax
    by_contra hge
    exact hnot ⟨maxChunks, hmax, decide_eq_true (Nat.not_lt.mp hge)⟩

theorem run_cons (hpending : s.records.decisionOf unit.id = some .pending) (hroom : s.Room limits) :
    run limits usableTokenBudget s (unit :: rest)
      = run limits usableTokenBudget (s.consider limits usableTokenBudget unit) rest := by
  rw [run.eq_2, if_neg (not_not.mpr hpending), if_neg (room_iff.mp hroom)]

theorem run_full (hroom : ¬ s.Room limits) (units : List ContextUnit) : (run limits usableTokenBudget s units).1 = s := by
  induction units with
  | nil => rfl
  | cons unit rest ih =>
    rw [run.eq_2]
    split_ifs with hdecided hfull
    · exact ih
    · rfl
    · exact absurd (room_iff.mpr hfull) hroom

theorem consider_decisionOf {id : String} (hid : id ≠ unit.id) :
    (s.consider limits usableTokenBudget unit).records.decisionOf id = s.records.decisionOf id := by
  have hsettle : ∀ decision, (s.records.settle unit.id decision).decisionOf id = s.records.decisionOf id := by
    intro decision
    rw [Records.decisionOf_settle, if_neg hid]
  unfold consider
  split_ifs
  all_goals exact hsettle _

theorem run_decisionOf {id : String} (hid : id ∉ units.map ContextUnit.id) :
    (run limits usableTokenBudget s units).1.records.decisionOf id = s.records.decisionOf id := by
  induction units generalizing s with
  | nil => rfl
  | cons unit rest ih =>
    rw [List.map_cons, List.mem_cons, not_or] at hid
    rw [run.eq_2]
    split_ifs
    · exact ih hid.2
    · rfl
    · rw [ih hid.2]
      exact consider_decisionOf hid.1

/-- The units are still to be decided. -/
structure Open (s : Selecting) (units : List ContextUnit) : Prop where
  nodup : (units.map ContextUnit.id).Nodup
  pending : ∀ unit ∈ units, s.records.decisionOf unit.id = some .pending

theorem Open.consider (h : s.Open (unit :: rest)) :
    (s.consider limits usableTokenBudget unit).Open rest where
  nodup := (List.nodup_cons.mp h.nodup).2
  pending other hother := by
    have hne : other.id ≠ unit.id := by
      intro heq
      exact (List.nodup_cons.mp h.nodup).1 (heq ▸ List.mem_map_of_mem hother)
    rw [consider_decisionOf hne]
    exact h.pending other (List.mem_cons_of_mem unit hother)

theorem Open.head (h : s.Open (unit :: rest)) : s.records.decisionOf unit.id = some .pending :=
  h.pending unit List.mem_cons_self

theorem Open.sublist (h : s.Open units) (hsub : rest.Sublist units) : s.Open rest where
  nodup := h.nodup.sublist (hsub.map ContextUnit.id)
  pending other hother := h.pending other (hsub.subset hother)

/-! ### At a turn -/

theorem not_atTurn_nil : ¬ AtTurn limits usableTokenBudget P s [] := by
  rintro ⟨before, unit, after, heq, -⟩
  exact List.append_ne_nil_of_right_ne_nil before (List.cons_ne_nil unit after) heq.symm

theorem atTurn_cons (hpending : s.records.decisionOf unit.id = some .pending) (hroom : s.Room limits) :
    AtTurn limits usableTokenBudget P s (unit :: rest) ↔
      P s unit ∨ AtTurn limits usableTokenBudget P (s.consider limits usableTokenBudget unit) rest := by
  have hturn : ∀ before, s.turn limits usableTokenBudget (unit :: before)
      = (s.consider limits usableTokenBudget unit).turn limits usableTokenBudget before := by
    intro before
    exact congrArg Prod.fst (run_cons hpending hroom)
  constructor
  · rintro ⟨before, other, after, heq, hP⟩
    cases before with
    | nil =>
      obtain ⟨rfl, -⟩ := List.cons.inj heq
      exact .inl hP
    | cons first before =>
      obtain ⟨rfl, hrest⟩ := List.cons.inj heq
      exact .inr ⟨before, other, after, hrest, hturn before ▸ hP⟩
  · rintro (hP | ⟨before, other, after, hrest, hP⟩)
    · exact ⟨[], unit, rest, rfl, hP⟩
    · refine ⟨unit :: before, other, after, by rw [hrest]; rfl, ?_⟩
      rw [hturn]
      exact hP

theorem not_atTurn (hP : ∀ s unit, P s unit → s.Room limits) (hroom : ¬ s.Room limits) :
    ¬ AtTurn limits usableTokenBudget P s units := by
  rintro ⟨before, unit, after, -, hturn⟩
  have hsame : s.turn limits usableTokenBudget before = s := run_full hroom before
  exact hroom (hP s unit (hsame ▸ hturn))

def SkippedForParent (records : Records) (id : String) : Prop :=
  ∃ duplicateOf, records.decisionOf id = some (.skipped .parentNotSelected duplicateOf)

theorem consider_skippedForParent (hpending : s.records.decisionOf unit.id = some .pending)
    (hroom : s.Room limits) :
    SkippedForParent (s.consider limits usableTokenBudget unit).records unit.id ↔ s.Waits limits unit := by
  have hsettle : ∀ decision, (s.records.settle unit.id decision).decisionOf unit.id = some decision := by
    intro decision
    rw [Records.decisionOf_settle, if_pos rfl, hpending]
    rfl
  have hwaits : s.Waits limits unit ↔ unit.parentId.any (fun parentId => decide (parentId ∉ s.selectedSources)) = true := by
    rw [Option.any_eq_true]
    exact (and_iff_right hroom).trans (exists_congr (fun parentId => and_congr_right (fun _ => decide_eq_true_iff.symm)))
  rw [hwaits]
  unfold SkippedForParent consider
  split_ifs with hparent hsources hbudget
  · exact ⟨fun _ => hparent, fun _ => ⟨none, hsettle _⟩⟩
  all_goals
    refine ⟨?_, fun h => absurd h hparent⟩
    rintro ⟨duplicateOf, hskip⟩
    have heq := (hsettle _).symm.trans hskip
    simp at heq

theorem run_skippedForParent (h : s.Open units) {id : String} (hid : ¬ SkippedForParent s.records id) :
    SkippedForParent (run limits usableTokenBudget s units).1.records id ↔
      AtTurn limits usableTokenBudget (fun s unit => unit.id = id ∧ s.Waits limits unit) s units := by
  induction units generalizing s with
  | nil => exact iff_of_false hid not_atTurn_nil
  | cons unit rest ih =>
    by_cases hroom : s.Room limits
    · rw [run_cons h.head hroom, atTurn_cons h.head hroom]
      by_cases heq : unit.id = id
      · subst heq
        have hrest := (List.nodup_cons.mp h.nodup).1
        have hlater : ¬ AtTurn limits usableTokenBudget
            (fun s other => other.id = unit.id ∧ s.Waits limits other)
            (s.consider limits usableTokenBudget unit) rest := by
          rintro ⟨before, other, after, rfl, hother, -⟩
          exact hrest (hother ▸ List.mem_map_of_mem (List.mem_append_right _ List.mem_cons_self))
        rw [or_iff_left hlater, and_iff_right rfl, ← consider_skippedForParent h.head hroom]
        unfold SkippedForParent
        rw [run_decisionOf hrest]
      · have hsame : SkippedForParent (s.consider limits usableTokenBudget unit).records id ↔
            SkippedForParent s.records id := by
          unfold SkippedForParent
          rw [consider_decisionOf (Ne.symm heq)]
        rw [ih h.consider (fun hskip => hid (hsame.mp hskip)), or_iff_right (fun hnow => heq hnow.1)]
    · rw [run_full hroom]
      exact iff_of_false hid (not_atTurn (fun _ _ hP => hP.2.1) hroom)

theorem mem_consider (hroom : s.Room limits) {chosen : ContextUnit} :
    chosen ∈ (s.consider limits usableTokenBudget unit).selectedUnits ↔
      chosen ∈ s.selectedUnits ∨ unit = chosen ∧ s.Admits limits usableTokenBudget unit := by
  unfold consider
  split_ifs with hparent hsources hbudget
  · refine (or_iff_left ?_).symm
    rintro ⟨-, hadmits⟩
    obtain ⟨parentId, hid, hmissing⟩ := (Option.any_eq_true _ _).mp hparent
    exact of_decide_eq_true hmissing (hadmits.parent parentId hid)
  · refine (or_iff_left ?_).symm
    rintro ⟨-, hadmits⟩
    obtain ⟨maxSources, hmax, hle⟩ := (Option.any_eq_true _ _).mp hsources.2
    rcases hadmits.sources with hmem | hlt
    · exact hsources.1 hmem
    · exact absurd (of_decide_eq_true hle) (Nat.not_le.mpr (hlt maxSources hmax))
  · refine (or_iff_left ?_).symm
    rintro ⟨-, hadmits⟩
    have hfits := hadmits.budget
    omega
  · have hadmits : s.Admits limits usableTokenBudget unit := by
      refine ⟨hroom, fun parentId hid => ?_, ?_, by omega⟩
      · by_contra hmissing
        exact hparent ((Option.any_eq_true _ _).mpr ⟨parentId, hid, decide_eq_true hmissing⟩)
      · by_contra hnot
        rw [not_or] at hnot
        refine hsources ⟨hnot.1, (Option.any_eq_true _ _).mpr ?_⟩
        by_contra hall
        refine hnot.2 fun maxSources hmax => ?_
        by_contra hge
        exact hall ⟨maxSources, hmax, decide_eq_true (Nat.not_lt.mp hge)⟩
    show chosen ∈ s.selectedUnits ++ [unit] ↔ _
    rw [List.mem_append, List.mem_singleton, and_iff_left hadmits, eq_comm]

theorem mem_run (h : s.Open units) {chosen : ContextUnit} :
    chosen ∈ (run limits usableTokenBudget s units).1.selectedUnits ↔ chosen ∈ s.selectedUnits ∨
      AtTurn limits usableTokenBudget
        (fun s unit => unit = chosen ∧ s.Admits limits usableTokenBudget unit) s units := by
  induction units generalizing s with
  | nil => exact (or_iff_left not_atTurn_nil).symm
  | cons unit rest ih =>
    by_cases hroom : s.Room limits
    · rw [run_cons h.head hroom, atTurn_cons h.head hroom, ih h.consider, mem_consider hroom, or_assoc]
    · rw [run_full hroom]
      exact (or_iff_left (not_atTurn (fun _ _ hP => hP.2.room) hroom)).symm

end Loop

end Selecting

/-! ## The gate -/

def Records.parents (records : Records) : List (String × Option String) :=
  records.map (fun r => (r.unit.id, r.unit.parentId))

def unitParents (units : List ContextUnit) : List (String × Option String) :=
  units.map (fun unit => (unit.id, unit.parentId))

theorem unitParents_inj {units : List ContextUnit} (hnodup : (units.map ContextUnit.id).Nodup)
    {left right : String × Option String} (hleft : left ∈ unitParents units)
    (hright : right ∈ unitParents units) (hid : left.1 = right.1) : left = right := by
  have hkeys : ((unitParents units).map Prod.fst).Nodup := by
    unfold unitParents
    rw [List.map_map]
    exact hnodup
  exact List.inj_on_of_nodup_map hkeys hleft hright hid

theorem Records.parents_refresh {records : Records} {units : List ContextUnit} {unit : ContextUnit}
    (hrecords : records.parents = unitParents units) (hnodup : (units.map ContextUnit.id).Nodup)
    (hunit : (unit.id, unit.parentId) ∈ unitParents units) :
    (records.refresh unit).parents = records.parents := by
  unfold Records.refresh Records.parents
  rw [List.map_map]
  refine List.map_congr_left fun r hr => ?_
  rw [Function.comp_apply]
  split_ifs with hid
  · have hr' : (r.unit.id, r.unit.parentId) ∈ unitParents units := by
      rw [← hrecords]
      exact List.mem_map_of_mem (f := fun r : InternalTrace => (r.unit.id, r.unit.parentId)) hr
    exact unitParents_inj hnodup hunit hr' hid.symm
  · rfl

/-- What the gate keeps: units it has let pass are pending, and nothing has been skipped for a
parent. -/
structure Gated.Open (units done : List ContextUnit) (g : Gated) : Prop where
  waiting : ∀ unit ∈ units, unit.id ∉ done.map ContextUnit.id →
    g.records.decisionOf unit.id = some .pending
  done : ∀ key unit, g.deduplicated.get? key = some unit → unit.id ∈ done.map ContextUnit.id
  pending : ∀ key unit, g.deduplicated.get? key = some unit → g.records.decisionOf unit.id = some .pending
  placed : ∀ key unit, g.deduplicated.get? key = some unit → unit.hierarchyIssue = none
  unskipped : ∀ id, ¬ Selecting.SkippedForParent g.records id
  parents : g.records.parents = unitParents units

section Gate

variable {host : Host} {gate : FreshnessGate} {sources : List SourceDescriptor}
  {units done : List ContextUnit} {unit : ContextUnit} {g g' : Gated}

theorem Gated.Open.extend (h : g.Open units done) (unit : ContextUnit) : g.Open units (done ++ [unit]) where
  waiting other hother hid := h.waiting other hother (fun hmem => hid (by
    rw [List.map_append]
    exact List.mem_append_left _ hmem))
  done key other hother := by
    rw [List.map_append]
    exact List.mem_append_left _ (h.done key other hother)
  pending := h.pending
  placed := h.placed
  unskipped := h.unskipped
  parents := h.parents

theorem Gated.Open.refresh (h : g.Open units done) (hnodup : (units.map ContextUnit.id).Nodup)
    (hunit : (unit.id, unit.parentId) ∈ unitParents units) :
    Gated.Open units done { g with records := g.records.refresh unit } where
  waiting other hother hid := by
    rw [Records.decisionOf_refresh]
    exact h.waiting other hother hid
  done := h.done
  pending key other hother := by
    rw [Records.decisionOf_refresh]
    exact h.pending key other hother
  placed := h.placed
  unskipped id := by
    unfold Selecting.SkippedForParent
    rw [Records.decisionOf_refresh]
    exact h.unskipped id
  parents := (Records.parents_refresh h.parents hnodup hunit).trans h.parents

theorem Gated.Open.settle (h : g.Open units done) {unitId : String} {reason : SelectionSkipReason}
    (duplicateOf : Option String) (hreason : reason ≠ .parentNotSelected)
    (hdone : unitId ∈ done.map ContextUnit.id)
    (hother : ∀ key other, g.deduplicated.get? key = some other → other.id ≠ unitId) :
    Gated.Open units done { g with records := g.records.settle unitId (.skipped reason duplicateOf) } where
  waiting other hmem hid := by
    rw [Records.decisionOf_settle, if_neg (fun heq : other.id = unitId => hid (heq.symm ▸ hdone))]
    exact h.waiting other hmem hid
  done := h.done
  pending key other hget := by
    rw [Records.decisionOf_settle, if_neg (hother key other hget)]
    exact h.pending key other hget
  placed := h.placed
  unskipped id := by
    rintro ⟨duplicate, hskip⟩
    rw [Records.decisionOf_settle] at hskip
    split_ifs at hskip
    · obtain ⟨_, -, heq⟩ := Option.map_eq_some_iff.mp hskip
      exact hreason (Decision.skipped.inj heq).1
    · exact h.unskipped id ⟨duplicate, hskip⟩
  parents := by
    rw [← h.parents]
    exact Records.shown_congr (fun unit => (unit.id, unit.parentId)) (Records.units_settle _ _ _)

theorem Gated.Open.set (h : g.Open units done) (hdone : unit.id ∈ done.map ContextUnit.id)
    (hpending : g.records.decisionOf unit.id = some .pending) (hplaced : unit.hierarchyIssue = none)
    (key : String) : Gated.Open units done { g with deduplicated := g.deduplicated.set key unit } where
  waiting := h.waiting
  done other stored hget := by
    rw [OrderedMap.get?_set] at hget
    split_ifs at hget
    · rw [← Option.some.inj hget]
      exact hdone
    · exact h.done other stored hget
  pending other stored hget := by
    rw [OrderedMap.get?_set] at hget
    split_ifs at hget
    · rw [← Option.some.inj hget]
      exact hpending
    · exact h.pending other stored hget
  placed other stored hget := by
    rw [OrderedMap.get?_set] at hget
    split_ifs at hget
    · rw [← Option.some.inj hget]
      exact hplaced
    · exact h.placed other stored hget
  unskipped := h.unskipped
  parents := h.parents

theorem gateUnit_reason {source : SourceDescriptor} {unit' : ContextUnit} {reason : SelectionSkipReason}
    (h : gateUnit host gate source unit = .ok (some reason, unit')) : reason ≠ .parentNotSelected := by
  unfold gateUnit at h
  split_ifs at h with htext hinvalid
  · obtain ⟨heq, -⟩ := Prod.mk.inj (Except.ok.inj h)
    rw [← Option.some.inj heq]
    nofun
  · obtain ⟨heq, -⟩ := Prod.mk.inj (Except.ok.inj h)
    rw [← Option.some.inj heq]
    nofun
  obtain ⟨instant, -, h⟩ := of_bind_ok h
  obtain ⟨expiresAt, -, h⟩ := of_bind_ok h
  obtain ⟨observedAt, -, h⟩ := of_bind_ok h
  dsimp only at h
  split_ifs at h
  all_goals
    obtain ⟨heq, -⟩ := Prod.mk.inj (Except.ok.inj h)
    cases heq
  all_goals nofun

theorem Offered.dedupeKey_eq {unit' : ContextUnit} (hnodup : (units.map ContextUnit.id).Nodup)
    (h : Offered host gate sources units unit) (h' : Offered host gate sources units unit')
    (hid : unit.id = unit'.id) : unit.dedupeKey = unit'.dedupeKey := by
  obtain ⟨origin, horigin, heq, -⟩ := h
  obtain ⟨origin', horigin', heq', -⟩ := h'
  rw [heq, heq'] at hid ⊢
  rw [List.inj_on_of_nodup_map hnodup horigin horigin' hid]

theorem Gated.Open.deduplicate (h : g.Open units done) (hsound : g.Sound host gate sources units)
    (hnodup : (units.map ContextUnit.id).Nodup) (hdone : unit.id ∈ done.map ContextUnit.id)
    (hnew : ∀ key other, g.deduplicated.get? key = some other → other.id ≠ unit.id)
    (hpending : g.records.decisionOf unit.id = some .pending) (hplaced : unit.hierarchyIssue = none) :
    (g.deduplicate unit).Open units done := by
  unfold Gated.deduplicate
  cases hprevious : g.deduplicated.get? unit.dedupeKey with
  | none => exact h.set hdone hpending hplaced _
  | some previous =>
    dsimp only
    split_ifs
    · refine (h.set hdone hpending hplaced unit.dedupeKey).settle (some unit.id) nofun
        (h.done _ _ hprevious) (fun key other hother => ?_)
      rw [OrderedMap.get?_set] at hother
      split_ifs at hother with hkey
      · rw [← Option.some.inj hother]
        exact (hnew _ _ hprevious).symm
      · intro hid
        refine hkey ?_
        rw [← hsound.keys _ _ hother, ← hsound.keys _ _ hprevious]
        exact (hsound.offered _ _ hother).dedupeKey_eq hnodup (hsound.offered _ _ hprevious) hid
    · exact h.settle (some previous.id) nofun hdone hnew

theorem Gated.Open.step (h : g.Open units done) (hsound : g.Sound host gate sources units)
    (hnodup : (units.map ContextUnit.id).Nodup) (hmem : unit ∈ units)
    (hnew : unit.id ∉ done.map ContextUnit.id)
    (hstep : g.step host gate (sourceMap sources) unit = .ok g') : g'.Open units (done ++ [unit]) := by
  unfold Gated.step at hstep
  cases hsource : (sourceMap sources).get? unit.sourceId with
  | none =>
    rw [hsource] at hstep
    cases hstep
  | some source =>
    rw [hsource] at hstep
    dsimp only at hstep
    cases hgate : gateUnit host gate source unit with
    | error err =>
      rw [hgate] at hstep
      cases hstep
    | ok p =>
      obtain ⟨reason, current⟩ := p
      rw [hgate] at hstep
      cases hstep
      have hcurrent := (gateUnit_ok hgate).1
      have hid : current.id = unit.id := by rw [hcurrent]
      have hparents : (current.id, current.parentId) ∈ unitParents units := by
        rw [hid, show current.parentId = unit.parentId by rw [hcurrent]]
        exact List.mem_map_of_mem (f := fun unit : ContextUnit => (unit.id, unit.parentId)) hmem
      have hdone : current.id ∈ (done ++ [unit]).map ContextUnit.id := by
        rw [hid]
        exact List.mem_map_of_mem (List.mem_append_right _ List.mem_cons_self)
      have hother : ∀ key other, g.deduplicated.get? key = some other → other.id ≠ current.id := by
        intro key other hget heq
        exact hnew (hid ▸ heq ▸ h.done key other hget)
      have hrefresh := (h.extend unit).refresh hnodup hparents
      have hsound' : Gated.Sound host gate sources units { g with records := g.records.refresh current } :=
        hsound.records (Records.ids_refresh _ _) (fun id k hk => (Records.decisionOf_refresh _ _ id).symm.trans hk)
      unfold Gated.enter
      dsimp only
      cases reason with
      | some reason => exact hrefresh.settle none (gateUnit_reason hgate) hdone hother
      | none =>
        cases hissue : current.hierarchyIssue with
        | some issue =>
          refine hrefresh.settle none ?_ hdone hother
          cases issue <;> nofun
        | none =>
          have hpending : (g.records.refresh current).decisionOf current.id = some .pending := by
            rw [Records.decisionOf_refresh, hid]
            exact h.waiting unit hmem hnew
          exact hrefresh.deduplicate hsound' hnodup hdone hother hpending hissue

theorem gateUnits_open (hnodup : (units.map ContextUnit.id).Nodup)
    (h : gateUnits host gate (sourceMap sources) units = .ok g) : g.Open units units := by
  have hpending : ∀ id, id ∈ units.map ContextUnit.id →
      Records.decisionOf (units.map (fun unit => ⟨unit, .pending⟩)) id = some .pending := by
    intro id hid
    obtain ⟨unit, hunit, rfl⟩ := List.mem_map.mp hid
    have hr : (⟨unit, .pending⟩ : InternalTrace) ∈ units.map (fun unit => ⟨unit, .pending⟩) :=
      List.mem_map.mpr ⟨unit, hunit, rfl⟩
    exact Records.decisionOf_of_mem ((ids_pending units).symm ▸ hnodup) hr
  have hinit : Gated.Open units [] { records := units.map (fun unit => ⟨unit, .pending⟩) } := by
    refine ⟨fun unit hunit _ => hpending unit.id (List.mem_map_of_mem hunit), by simp, by simp, by simp, ?_, ?_⟩
    · rintro id ⟨duplicateOf, hskip⟩
      obtain ⟨r, hr, hdecision⟩ := Option.map_eq_some_iff.mp hskip
      obtain ⟨unit, -, rfl⟩ := List.mem_map.mp (List.mem_of_find?_eq_some hr)
      cases hdecision
    · unfold Records.parents unitParents
      rw [List.map_map]
      rfl
  have hsound : Gated.Sound host gate sources units { records := units.map (fun unit => ⟨unit, .pending⟩) } :=
    ⟨ids_pending units, decisionOf_pending units, by simp, by simp⟩
  refine (of_foldlM_ok (fun done g => g.Sound host gate sources units ∧
    ((done.map ContextUnit.id).Nodup → g.Open units done)) ?_ ⟨hsound, fun _ => hinit⟩ h).2 hnodup
  rintro done unit hmem g g' ⟨hsound, hopen⟩ hstep
  refine ⟨hsound.step hmem hstep, fun hdone => ?_⟩
  rw [List.map_append, List.nodup_append] at hdone
  refine (hopen hdone.1).step hsound hnodup hmem (fun hin => ?_) hstep
  exact hdone.2.2 _ hin _ (List.mem_cons_self) rfl

end Gate

section Report

variable {host : Host} {options : ContextEngineOptions} {request : ContextSelectionRequest}
  {c : CheckedRequest} {sources : List SourceDescriptor} {units : List ContextUnit} {g : Gated}

theorem skipPending_skippedForParent {reason : SelectionSkipReason} (hreason : reason ≠ .parentNotSelected)
    (units : List ContextUnit) (records : Records) (id : String) :
    Selecting.SkippedForParent (skipPending reason records units) id ↔
      Selecting.SkippedForParent records id := by
  unfold skipPending
  induction units generalizing records with
  | nil => exact Iff.rfl
  | cons unit units ih =>
    rw [List.foldl_cons, ih]
    split_ifs with hpending
    · unfold Selecting.SkippedForParent
      rw [Records.decisionOf_settle]
      split_ifs with hid
      · subst hid
        rw [hpending]
        refine iff_of_false ?_ ?_
        · rintro ⟨duplicateOf, hskip⟩
          exact hreason (Decision.skipped.inj (Option.some.inj hskip)).1
        · rintro ⟨duplicateOf, hskip⟩
          cases hskip
      · exact Iff.rfl
    · exact Iff.rfl

theorem finishRecords_skippedForParent (ordered : List ContextUnit) (outcome : Selecting × Bool)
    (id : String) : Selecting.SkippedForParent (finishRecords ordered outcome) id ↔
      Selecting.SkippedForParent outcome.1.records id := by
  have hmap : ∀ records : Records, Selecting.SkippedForParent (records.map (fun r =>
      if r.decision = .pending then { r with decision := .skipped .budget none } else r)) id ↔
        Selecting.SkippedForParent records id := by
    intro records
    unfold Selecting.SkippedForParent
    induction records with
    | nil => exact Iff.rfl
    | cons r records ih =>
      rw [List.map_cons, Records.decisionOf_cons, Records.decisionOf_cons]
      by_cases hpending : r.decision = .pending
      · rw [if_pos hpending]
        split_ifs with hid
        · rw [hpending]
          exact iff_of_false nofun nofun
        · exact ih
      · rw [if_neg hpending]
        split_ifs with hid
        · exact Iff.rfl
        · exact ih
  unfold finishRecords
  rw [hmap]
  split_ifs
  · exact @skipPending_skippedForParent .maxChunks nofun _ _ _
  · exact Iff.rfl

theorem report_reason {r : InternalTrace} : (publicTrace r).reason = .skipped .parentNotSelected ↔
      ∃ duplicateOf, r.decision = .skipped .parentNotSelected duplicateOf := by
  show r.decision.report.2 = _ ↔ _
  cases r.decision with
  | pending | selected => exact iff_of_false nofun nofun
  | skipped reason duplicateOf =>
    constructor
    · intro h
      exact ⟨duplicateOf, congrArg₂ Decision.skipped (SelectionReason.skipped.inj h) rfl⟩
    · rintro ⟨duplicate, h⟩
      exact congrArg SelectionReason.skipped (Decision.skipped.inj h).1

end Report

namespace Selecting

variable {sources : Sources} {limits : SelectionLimits} {usableTokenBudget : Nat} {s : Selecting}
  {units : List ContextUnit}

theorem overtaken_iff (hopen : s.Open units) (hsound : s.Sound limits usableTokenBudget)
    (hphase : units.Pairwise (fun left right => left.phase ≤ right.phase))
    (hplaced : ∀ unit ∈ units, Placed sources unit) :
    s.Overtaken sources limits usableTokenBudget units ↔ ∃ unit parent, unit.parentId = some parent.sourceId ∧
        AtTurn limits usableTokenBudget (fun s u => u = unit ∧ s.Waits limits u) s units ∧
        AtTurn limits usableTokenBudget
          (fun s u => u = parent ∧ s.Admits limits usableTokenBudget u) s units := by
  constructor
  · rintro ⟨before, unit, middle, parent, after, rfl, hid, -, hwaits, hadmits⟩
    refine ⟨unit, parent, hid, ⟨before, unit, middle ++ parent :: after, rfl, rfl, hwaits⟩, ?_⟩
    exact ⟨before ++ unit :: middle, parent, after, by rw [List.append_assoc]; rfl, rfl, hadmits⟩
  · rintro ⟨_, _, hid, ⟨before, unit, after, heq, rfl, hwaits⟩, ⟨before', parent, after', heq', rfl, hadmits⟩⟩
    obtain ⟨hroom, parentId, hparentId, hmissing⟩ := hwaits
    obtain rfl : parent.sourceId = parentId := Option.some.inj (hid.symm.trans hparentId)
    have hsame : before = before' → unit = parent → False := by
      rintro rfl rfl
      exact hmissing (hadmits.parent _ hid)
    rcases List.append_eq_append_iff.mp (heq.symm.trans heq') with
      ⟨middle, rfl, htail⟩ | ⟨middle, rfl, htail⟩
    · cases middle with
      | nil =>
        obtain ⟨rfl, -⟩ := List.cons.inj htail
        exact absurd rfl (hsame (List.append_nil _).symm)
      | cons first middle =>
        obtain ⟨rfl, rfl⟩ := List.cons.inj htail
        have hunit := hplaced unit (by rw [heq]; simp)
        have hparent := hplaced parent (by rw [heq]; simp)
        have hle : unit.phase ≤ parent.phase := by
          rw [heq, List.pairwise_append] at hphase
          exact (List.pairwise_cons.mp hphase.2.1).1 parent (by simp)
        exact ⟨before, unit, middle, parent, after', heq, hid, hparent.deeper hunit hid hle,
          ⟨hroom, _, hid, hmissing⟩, hadmits⟩
    · cases middle with
      | nil =>
        obtain ⟨rfl, -⟩ := List.cons.inj htail
        exact absurd rfl (hsame (List.append_nil _))
      | cons first middle =>
        -- The unit of the parent source came first, so the unit does not wait.
        obtain ⟨rfl, -⟩ := List.cons.inj htail
        have hbefore : s.Open (before' ++ parent :: middle) := hopen.sublist (by
          rw [heq]
          exact List.sublist_append_left _ _)
        have hselected := (mem_run hbefore).mpr (Or.inr ⟨before', parent, middle, rfl, rfl, hadmits⟩)
        exact absurd ((hsound.run _).sources parent.sourceId |>.mpr ⟨parent, hselected, rfl⟩) hmissing

end Selecting

/-! ## `select` -/

section Select

variable {host : Host} {c : CheckedRequest} {sources : List SourceDescriptor} {units : List ContextUnit}
  {g : Gated}

theorem inj_on_ids {list : List ContextUnit} {α : Type} (f : ContextUnit → α)
    (h : (list.map f).Nodup) (hids : ∀ left ∈ list, ∀ right ∈ list, left.id = right.id → f left = f right) :
    (list.map ContextUnit.id).Nodup := by
  unfold List.Nodup at h ⊢
  rw [List.pairwise_map] at h ⊢
  refine h.imp_of_mem fun hleft hright hne heq => ?_
  exact hne (hids _ hleft _ hright heq)

theorem Gated.Open.start (h : g.Open units units) (hsound : g.Sound host c.gate sources units)
    (hnodup : (units.map ContextUnit.id).Nodup) (diversityWeight : ℚ) :
    Selecting.Open { records := g.records } (orderedUnits g.deduplicated.values diversityWeight) := by
  have hperm := orderedUnits_perm g.deduplicated.values diversityWeight
  refine ⟨(hperm.map ContextUnit.id).nodup_iff.mpr ?_, fun unit hunit => ?_⟩
  · refine inj_on_ids ContextUnit.dedupeKey hsound.values_nodup fun left hleft right hright hid => ?_
    obtain ⟨key, hkey⟩ := (OrderedMap.mem_values _).mp hleft
    obtain ⟨key', hkey'⟩ := (OrderedMap.mem_values _).mp hright
    exact (hsound.offered _ _ hkey).dedupeKey_eq hnodup (hsound.offered _ _ hkey') hid
  · obtain ⟨key, hkey⟩ := (OrderedMap.mem_values _).mp (hperm.mem_iff.mp hunit)
    exact h.pending key unit hkey

theorem Gated.Open.origin (h : g.Open units units) (hsound : g.Sound host c.gate sources units)
    (hunits : candidateUnits host c sources = .ok units) (diversityWeight : ℚ) :
    ∀ unit ∈ orderedUnits g.deduplicated.values diversityWeight, Placed (sourceMap sources) unit ∧
      (unit.id, unit.parentId) ∈ unitParents units := by
  obtain ⟨m, -, hm⟩ := of_bind_ok hunits
  cases hm
  intro unit hunit
  obtain ⟨key, hkey⟩ := (OrderedMap.mem_values _).mp ((orderedUnits_perm _ _).mem_iff.mp hunit)
  obtain ⟨origin, horigin, heq, -⟩ := hsound.offered key unit hkey
  have hissue := h.placed key unit hkey
  rw [heq] at hissue ⊢
  have hplaced := placeUnits_placed (sourceMap sources) m.units origin horigin hissue
  exact ⟨⟨hplaced.root, hplaced.below, hplaced.phase⟩, List.mem_map.mpr ⟨origin, horigin, rfl⟩⟩

theorem noFalseParentSkip_report (hunits : candidateUnits host c sources = .ok units)
    (hg : gateUnits host c.gate (sourceMap sources) units = .ok g) :
    let ordered := orderedUnits g.deduplicated.values c.limits.diversityWeight
    let outcome := Selecting.run c.limits c.usableTokenBudget { records := g.records } ordered
    NoFalseParentSkip (report c sources (finishRecords ordered outcome) outcome.1) ↔
      ¬ Selecting.Overtaken (sourceMap sources) c.limits c.usableTokenBudget { records := g.records }
        ordered := by
  intro ordered outcome
  have hnodup := candidateUnits_nodup hunits
  have hsound := gateUnits_sound hg
  have hgate := gateUnits_open hnodup hg
  have hopen := hgate.start hsound hnodup c.limits.diversityWeight
  have horigin := hgate.origin hsound hunits c.limits.diversityWeight
  have hshown := (finishRecords_units ordered outcome).trans
    (Selecting.run_units c.limits c.usableTokenBudget ordered { records := g.records })
  have hids : Records.ids (finishRecords ordered outcome) = units.map ContextUnit.id :=
    (Records.shown_congr ContextUnit.id hshown).trans hsound.ids
  have hparents : Records.parents (finishRecords ordered outcome) = unitParents units :=
    (Records.shown_congr (fun unit => (unit.id, unit.parentId)) hshown).trans hgate.parents
  -- The entry of a unit that is skipped for its parent.
  have hskipped : ∀ r ∈ finishRecords ordered outcome, (publicTrace r).reason = .skipped .parentNotSelected ↔
        Selecting.AtTurn c.limits c.usableTokenBudget
          (fun s u => u.id = r.unit.id ∧ s.Waits c.limits u) { records := g.records } ordered := by
    intro r hr
    rw [report_reason, ← Selecting.run_skippedForParent hopen (hgate.unskipped r.unit.id),
      ← finishRecords_skippedForParent ordered]
    unfold Selecting.SkippedForParent
    rw [Records.decisionOf_of_mem (hids ▸ hnodup) hr]
    exact exists_congr fun duplicateOf => Option.some_inj.symm
  have hselected : ∀ unit, unit ∈ outcome.1.selectedUnits ↔ Selecting.AtTurn c.limits c.usableTokenBudget
        (fun s u => u = unit ∧ s.Admits c.limits c.usableTokenBudget u) { records := g.records } ordered :=
    fun unit => (Selecting.mem_run hopen).trans (or_iff_right List.not_mem_nil)
  rw [Selecting.overtaken_iff hopen (hsound.start _ _)
    (orderedUnits_pairwise _ _) (fun unit hunit => (horigin unit hunit).1)]
  constructor
  · rintro hnone ⟨unit, parent, hid, ⟨before, u, after, heq, rfl, hwaits⟩, hadmits⟩
    have hmem : u ∈ ordered := by
      rw [show ordered = _ from heq]
      simp
    have hentry := (horigin u hmem).2
    rw [← hparents] at hentry
    obtain ⟨r, hr, hru⟩ := List.mem_map.mp hentry
    obtain ⟨hrid, hrparent⟩ := Prod.mk.inj hru
    have hreason := (hskipped r hr).mpr ⟨before, u, after, heq, hrid.symm, hwaits⟩
    have hchosen : parent ∈ outcome.1.selectedUnits := (hselected parent).mpr hadmits
    obtain ⟨k, hk, hat⟩ := List.mem_iff_getElem.mp hchosen
    refine hnone (publicTrace r) (List.mem_map_of_mem hr) hreason parent.sourceId
      (hrparent.trans hid) (publicSelected parent k) (List.mem_map.mpr ⟨(parent, k), ?_, rfl⟩) rfl
    exact List.mem_zipIdx_iff_getElem?.mpr (by rw [List.getElem?_eq_getElem hk, hat])
  · intro hnone entry hentry hreason parentId hparentId chosen hchosen hsource
    obtain ⟨r, hr, rfl⟩ := List.mem_map.mp hentry
    obtain ⟨p, hp, rfl⟩ := List.mem_map.mp hchosen
    obtain ⟨before, u, after, heq, hid, hwaits⟩ := (hskipped r hr).mp hreason
    have hmem : u ∈ ordered := by
      rw [show ordered = _ from heq]
      simp
    have hr' : (r.unit.id, r.unit.parentId) ∈ unitParents units := by
      rw [← hparents]
      exact List.mem_map_of_mem (f := fun r : InternalTrace => (r.unit.id, r.unit.parentId)) hr
    have hsame := unitParents_inj hnodup (horigin u hmem).2 hr' hid
    refine hnone ⟨u, p.1, ?_, ⟨before, u, after, heq, rfl, hwaits⟩, (hselected p.1).mp ?_⟩
    · rw [(Prod.mk.inj hsame).2, show p.1.sourceId = parentId from hsource]
      exact hparentId
    · exact List.fst_mem_of_mem_zipIdx hp

end Select

end Premise.ContextEngine
