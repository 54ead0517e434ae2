import Premise.ContextEngine.Selection

/-!
# Proofs: the order of the units

Every unit is considered once: grouping, sorting and taking turns lose nothing and repeat nothing.
-/

namespace Premise.ContextEngine

open Collections Control Js

section Groups

variable {κ : Type} [DecidableEq κ] {key : ContextUnit → κ}

theorem groupBy_concat (units : List ContextUnit) (unit : ContextUnit) :
    groupBy key (units ++ [unit]) = (groupBy key units).set (key unit)
      (((groupBy key units).get? (key unit)).getD [] ++ [unit]) := by
  unfold groupBy
  rw [List.foldl_append]
  rfl

theorem get?_groupBy (units : List ContextUnit) (k : κ) :
    ((groupBy key units).get? k).getD [] = units.filter (fun unit => decide (key unit = k)) := by
  induction units using List.reverseRecOn with
  | nil => rfl
  | append_singleton units unit ih =>
    rw [groupBy_concat, List.filter_append, OrderedMap.get?_set, ← ih]
    by_cases hk : k = key unit
    · subst hk
      simp
    · have hne : ¬ key unit = k := fun heq => hk heq.symm
      simp [hk, hne]

theorem mem_keys_groupBy (units : List ContextUnit) (k : κ) :
    k ∈ (groupBy key units).keys ↔ ∃ unit ∈ units, key unit = k := by
  induction units using List.reverseRecOn with
  | nil =>
    constructor
    · exact fun hk => absurd hk List.not_mem_nil
    · rintro ⟨unit, hunit, -⟩
      cases hunit
  | append_singleton units unit ih =>
    rw [groupBy_concat, OrderedMap.mem_keys_set, ih]
    constructor
    · rintro (rfl | ⟨other, hother, heq⟩)
      · exact ⟨unit, List.mem_append_right _ (List.mem_singleton_self _), rfl⟩
      · exact ⟨other, List.mem_append_left _ hother, heq⟩
    · rintro ⟨other, hother, heq⟩
      rcases List.mem_append.mp hother with hother | hother
      · exact .inr ⟨other, hother, heq⟩
      · rw [List.mem_singleton.mp hother] at heq
        exact .inl heq.symm

theorem flatMap_filter_perm {keys : List κ} (hnodup : keys.Nodup) {units : List ContextUnit}
    (hall : ∀ unit ∈ units, key unit ∈ keys) :
    (keys.flatMap (fun k => units.filter (fun unit => decide (key unit = k)))).Perm units := by
  induction keys generalizing units with
  | nil =>
    rw [List.eq_nil_iff_forall_not_mem.mpr (fun unit hunit => absurd (hall unit hunit) List.not_mem_nil)]
    exact List.Perm.refl _
  | cons k keys ih =>
    obtain ⟨hk, hnodup⟩ := List.nodup_cons.mp hnodup
    rw [List.flatMap_cons]
    refine List.Perm.trans ?_ (List.filter_append_perm (fun unit => decide (key unit = k)) units)
    refine List.Perm.append_left _ ?_
    have hrest : ∀ unit ∈ units.filter (fun unit => !decide (key unit = k)), key unit ∈ keys := by
      intro unit hunit
      obtain ⟨hmem, hne⟩ := List.mem_filter.mp hunit
      rcases List.mem_cons.mp (hall unit hmem) with heq | hin
      · rw [decide_eq_true heq] at hne
        cases hne
      · exact hin
    refine List.Perm.trans (List.Perm.of_eq ?_) (ih hnodup hrest)
    refine List.flatMap_congr fun k' hk' => ?_
    rw [List.filter_filter]
    refine List.filter_congr fun unit _ => ?_
    by_cases heq : key unit = k'
    · have hne : key unit ≠ k := by
        rintro rfl
        exact hk (heq ▸ hk')
      rw [decide_eq_false hne]
      simp
    · simp [heq]

theorem flatMap_groups_perm (units : List ContextUnit) {keys : List κ}
    (hkeys : keys.Perm (groupBy key units).keys) {f : List ContextUnit → List ContextUnit}
    (hf : ∀ group, (f group).Perm group) :
    (keys.flatMap (fun k => f (((groupBy key units).get? k).getD []))).Perm units := by
  have hnodup : keys.Nodup := hkeys.nodup_iff.mpr (groupBy key units).keys_nodup
  refine List.Perm.trans ?_ (@flatMap_filter_perm _ _ key _ hnodup _ (fun unit hunit => ?_))
  · refine List.Perm.flatMap_left _ fun k _ => ?_
    rw [get?_groupBy]
    exact hf _
  · exact hkeys.mem_iff.mpr ((mem_keys_groupBy units _).mpr ⟨unit, hunit, rfl⟩)

theorem flatten_values_perm (units : List ContextUnit) : (groupBy key units).values.flatten.Perm units := by
  have hvalues : (groupBy key units).values
      = (groupBy key units).keys.map (fun k => ((groupBy key units).get? k).getD []) := by
    unfold OrderedMap.values OrderedMap.keys
    rw [List.map_map]
    refine List.map_congr_left fun e he => ?_
    rw [Function.comp_apply, (groupBy key units).get?_eq_some_iff.mpr he]
    rfl
  rw [hvalues, ← List.flatMap_def]
  exact flatMap_groups_perm units (List.Perm.refl _) (f := id) (fun group => List.Perm.refl _)

end Groups

theorem next_perm (groups : List (List ContextUnit)) :
    (groups.filterMap List.head? ++ (groups.map List.tail).flatten).Perm groups.flatten := by
  induction groups with
  | nil => exact List.Perm.refl _
  | cons group groups ih =>
    cases group with
    | nil => exact ih
    | cons unit rest =>
      show (unit :: (groups.filterMap List.head? ++ (rest ++ (groups.map List.tail).flatten))).Perm
        (unit :: (rest ++ groups.flatten))
      refine List.Perm.cons unit ?_
      calc (groups.filterMap List.head? ++ (rest ++ (groups.map List.tail).flatten)).Perm
            (rest ++ (groups.filterMap List.head? ++ (groups.map List.tail).flatten)) := by
              rw [← List.append_assoc, ← List.append_assoc]
              exact List.Perm.append_right _ List.perm_append_comm
        _ |>.Perm (rest ++ groups.flatten) := List.Perm.append_left rest ih

theorem next_decreases {groups : List (List ContextUnit)} (h : (groups.map List.length).sum ≠ 0) :
    ((groups.map List.tail).map List.length).sum < (groups.map List.length).sum := by
  induction groups with
  | nil => exact absurd rfl h
  | cons group groups ih =>
    rw [List.map_cons, List.map_cons, List.map_cons, List.sum_cons, List.sum_cons] at *
    have hle : ((groups.map List.tail).map List.length).sum ≤ (groups.map List.length).sum := by
      by_cases hzero : (groups.map List.length).sum = 0
      · have hperm := (next_perm groups).length_eq
        rw [List.length_append, List.length_flatten, List.length_flatten] at hperm
        omega
      · exact (ih hzero).le
    cases group with
    | nil =>
      rw [List.length_nil, Nat.zero_add] at h
      have hlt := ih h
      simpa using hlt
    | cons unit rest =>
      rw [List.tail_cons, List.length_cons]
      omega

theorem takeTurns_perm (groups : List (List ContextUnit)) : (takeTurns groups).Perm groups.flatten := by
  have hagain : ∀ t t' : Turns, (t.ordered ++ t.groups.flatten).Perm groups.flatten →
      turnsBody t = .again t' → (t'.ordered ++ t'.groups.flatten).Perm groups.flatten ∧
        (t'.groups.map List.length).sum < (t.groups.map List.length).sum := by
    intro t t' hinv hbody
    unfold turnsBody at hbody
    split_ifs at hbody with hzero
    obtain rfl := Step.again.inj hbody
    refine ⟨?_, next_decreases hzero⟩
    unfold Turns.next
    rw [List.append_assoc]
    exact (List.Perm.append_left _ (next_perm t.groups)).trans hinv
  have hdone : ∀ (t : Turns) (ordered : List ContextUnit),
      (t.ordered ++ t.groups.flatten).Perm groups.flatten → turnsBody t = .done ordered →
      ordered.Perm groups.flatten := by
    intro t ordered hinv hbody
    unfold turnsBody at hbody
    split_ifs at hbody with hzero
    obtain rfl := Step.done.inj hbody
    have hnil : t.groups.flatten = [] := by
      rw [← List.length_eq_zero_iff, List.length_flatten]
      exact hzero
    rw [hnil, List.append_nil] at hinv
    exact hinv
  obtain ⟨ordered, hrun, hperm⟩ := run_spec turnsBody (fun t => (t.groups.map List.length).sum) _ _
    hagain hdone ((groups.map List.length).sum + 1) ⟨groups, []⟩ (List.Perm.refl _) (Nat.lt_succ_self _)
  unfold takeTurns
  rw [hrun]
  exact hperm

theorem sortUnits_perm (units : List ContextUnit) : (sortUnits units).Perm units :=
  List.perm_insertionSort _ units

theorem orderStage_perm (diversityWeight : ℚ) (stage : List ContextUnit) :
    (orderStage diversityWeight stage).Perm stage := by
  unfold orderStage
  split_ifs
  · exact sortUnits_perm stage
  · refine (takeTurns_perm _).trans (List.Perm.trans ?_ (sortUnits_perm stage))
    exact ((List.perm_insertionSort FirstLe _).flatten).trans (flatten_values_perm _)

theorem orderedUnits_perm (units : List ContextUnit) (diversityWeight : ℚ) :
    (orderedUnits units diversityWeight).Perm units :=
  flatMap_groups_perm units (List.perm_insertionSort _ _) (orderStage_perm diversityWeight)

theorem orderedUnits_pairwise (units : List ContextUnit) (diversityWeight : ℚ) :
    (orderedUnits units diversityWeight).Pairwise (fun left right => left.phase ≤ right.phase) := by
  have hphase : ∀ stageKey, ∀ unit ∈ orderStage diversityWeight
      (((groupBy ContextUnit.phase units).get? stageKey).getD []), unit.phase = stageKey := by
    intro stageKey unit hunit
    have hmem := (orderStage_perm diversityWeight _).mem_iff.mp hunit
    rw [get?_groupBy] at hmem
    exact of_decide_eq_true (List.mem_filter.mp hmem).2
  unfold orderedUnits
  rw [List.pairwise_flatMap]
  constructor
  · intro stageKey _
    apply List.pairwise_of_forall_mem_list
    intro left hleft right hright
    rw [hphase stageKey left hleft, hphase stageKey right hright]
  · apply (List.pairwise_insertionSort _ (groupBy ContextUnit.phase units).keys).imp
    intro before after hle left hleft right hright
    rw [hphase before left hleft, hphase after right hright]
    exact hle

end Premise.ContextEngine
