import Premise.Control.Except
import Premise.ValidationScope.Frontier
import Premise.ValidationScope.Proofs.ScopeProofs

/-!
# Keys of scopes and of frontiers are exact

The keys of two scopes are equal exactly when the scopes agree, up to the order and the repetition of their
lists, and the key of a frontier depends on its scopes alone and tells them apart.
-/

namespace Premise.ValidationScope

open Collections Control Js

variable {κ : Type} [LinearOrder κ] {digest : String → String} {localeCompare : String → String → Int}
  {collationKey : String → κ} {texts : Set String}

namespace PremiseValidationScope

variable {scope scope' : PremiseValidationScope}

theorem canonicalSet_eq_iff {l l' : List String} :
    sortStrings (unique l) = sortStrings (unique l') ↔ ∀ value, value ∈ l ↔ value ∈ l' := by
  constructor
  · intro h value
    rw [← mem_unique, ← mem_sortStrings, h, mem_sortStrings, mem_unique]
  · intro h
    apply sortStrings_eq (unique_nodup l) (unique_nodup l')
    intro value
    rw [mem_unique, mem_unique, h value]

theorem normal_eq_iff : scope.normal = scope'.normal ↔ scope.SameScope scope' := by
  unfold normal
  rw [mk.injEq, canonicalSet_eq_iff, canonicalSet_eq_iff]
  constructor
  · rintro ⟨htenant, hresource, hincarnation, hscheme, htoken, hvalidator, hauthorization, hpolicy, hquery, hscopes,
      hchangeSet, hfrontier⟩
    exact ⟨⟨htenant, hresource, hincarnation, hscheme, htoken⟩, hvalidator, hauthorization, hpolicy, hquery,
      hchangeSet, hscopes, hfrontier⟩
  · intro h
    exact ⟨h.tenantId, h.resourceId, h.incarnationId, h.versionScheme, h.versionToken, h.validatorId,
      h.authorizationContextDigest, h.policyDigest, h.queryDigest, h.scopes, h.changeSetDigest, h.causalFrontier⟩

theorem supersessionText_eq_iff :
    supersessionText scope.normal = supersessionText scope'.normal ↔ scope.SameGeneration scope' := by
  constructor
  · intro h
    obtain ⟨htenant, hresource, hincarnation, hscheme, htoken⟩ := supersessionText_eq h
    exact ⟨htenant, hresource, hincarnation, hscheme, htoken⟩
  · rintro ⟨htenant, hresource, hincarnation, hscheme, htoken⟩
    unfold supersessionText normal
    rw [htenant, hresource, hincarnation, hscheme, htoken]

section

variable (hdigest : Set.InjOn digest texts) (h : scope.Complete) (h' : scope'.Complete)
  (htexts : scope.texts ⊆ texts) (htexts' : scope'.texts ⊆ texts)
include hdigest h h' htexts htexts'

theorem key_eq_iff :
    premiseValidationScopeKey digest scope = premiseValidationScopeKey digest scope' ↔ scope.SameScope scope' := by
  rw [scopeKey_eq h, scopeKey_eq h', Except.ok.injEq, ← normal_eq_iff]
  constructor
  · intro hkey
    exact scopeText_injective (digestKey_inj hdigest (htexts (.inl rfl)) (htexts' (.inl rfl)) hkey)
  · intro hnormal
    rw [hnormal]

theorem supersession_eq_iff : premiseValidationSupersessionKey digest scope = premiseValidationSupersessionKey digest scope'
      ↔ scope.SameGeneration scope' := by
  rw [supersessionKey_eq h, supersessionKey_eq h', Except.ok.injEq, ← supersessionText_eq_iff]
  constructor
  · intro hkey
    exact digestKey_inj hdigest (htexts (.inr rfl)) (htexts' (.inr rfl)) hkey
  · intro htext
    rw [htext]

end

end PremiseValidationScope

/-! ## Frontiers -/

section Frontiers

variable {scopes scopes' : List PremiseValidationScope}

def memberOf (digest : String → String) (scope : PremiseValidationScope) : FrontierMember where
  scope := scope.normal
  key := digestKey digest (scopeText scope.normal)

theorem frontierMember_eq {scope : PremiseValidationScope} (h : scope.Complete) :
    frontierMember digest scope = .ok (memberOf digest scope) := by
  unfold frontierMember
  rw [h, ok_bind, scopeKey_eq (PremiseValidationScope.normalize_again h)]
  rfl

theorem frontierMembers_eq (h : ∀ scope ∈ scopes, scope.Complete) :
    scopes.mapM (frontierMember digest) = .ok (scopes.map (memberOf digest)) :=
  mapM_of_ok (fun scope hscope => frontierMember_eq (h scope hscope))

theorem compares_members (h : Collates digest localeCompare collationKey) : Compares (compareMembers localeCompare)
      (fun member => toLex (collationKey member.scope.resourceId, collationKey member.key)) := by
  have hresource : Compares (fun left right : FrontierMember => localeCompare left.scope.resourceId right.scope.resourceId)
      (fun member => collationKey member.scope.resourceId) :=
    ⟨fun _ _ => h.compares.nonpos _ _, fun _ _ => h.compares.nonneg _ _⟩
  exact hresource.orElse ⟨fun _ _ => h.compares.nonpos _ _, fun _ _ => h.compares.nonneg _ _⟩

def frontierKeys (digest : String → String) (localeCompare : String → String → Int)
    (scopes : List PremiseValidationScope) : List String :=
  (sortBy (compareMembers localeCompare) (scopes.map (memberOf digest))).map FrontierMember.key

theorem frontierKeys_perm (h : Collates digest localeCompare collationKey) (hperm : scopes.Perm scopes') :
    frontierKeys digest localeCompare scopes = frontierKeys digest localeCompare scopes' := by
  refine map_sortBy_perm (compares_members h) ?_ (hperm.map _)
  intro member hmember member' hmember' hkey
  obtain ⟨scope, -, rfl⟩ := List.mem_map.mp hmember
  obtain ⟨scope', -, rfl⟩ := List.mem_map.mp hmember'
  have hcollated := (Prod.mk.inj (toLex.injective hkey)).2
  exact congrArg ("sha256:" ++ ·) (h.digests _ _ hcollated)

theorem mem_frontierKeys {key : String} : key ∈ frontierKeys digest localeCompare scopes ↔
    ∃ scope ∈ scopes, key = digestKey digest (scopeText scope.normal) := by
  unfold frontierKeys
  rw [((sortBy_perm _ _).map FrontierMember.key).mem_iff, List.map_map, List.mem_map]
  exact ⟨fun ⟨scope, hscope, hkey⟩ => ⟨scope, hscope, hkey.symm⟩, fun ⟨scope, hscope, hkey⟩ => ⟨scope, hscope, hkey.symm⟩⟩

/-- The resources of the members are told apart by how many there are. -/
def DistinctResources (scopes : List PremiseValidationScope) : Prop :=
  (unique (scopes.map PremiseValidationScope.resourceId)).length = scopes.length

instance (scopes : List PremiseValidationScope) : Decidable (DistinctResources scopes) :=
  inferInstanceAs (Decidable ((unique (scopes.map PremiseValidationScope.resourceId)).length = scopes.length))

theorem distinctResources_perm (hperm : scopes.Perm scopes') : DistinctResources scopes ↔ DistinctResources scopes' := by
  unfold DistinctResources
  rw [(unique_perm (hperm.map PremiseValidationScope.resourceId)).length_eq, hperm.length_eq]

theorem frontierKey_eq (h : ∀ scope ∈ scopes, scope.Complete) :
    premiseReceiptSharingFrontierKey digest localeCompare scopes =
      if scopes.length = 0 then .error (.typeError "PREMiSE frontier must contain at least one resource")
      else if DistinctResources scopes then
        .ok (digestKey digest (frontierText (frontierKeys digest localeCompare scopes)))
      else .error (.typeError "PREMiSE frontier cannot contain duplicate resources") := by
  have hperm := sortBy_perm (compareMembers localeCompare) (scopes.map (memberOf digest))
  have hunique := unique_perm (hperm.map (fun member => member.scope.resourceId))
  have hresources : (scopes.map (memberOf digest)).map (fun member => member.scope.resourceId)
      = scopes.map PremiseValidationScope.resourceId := List.map_map
  unfold premiseReceiptSharingFrontierKey
  rw [frontierMembers_eq h]
  simp only [ok_bind]
  rw [hunique.length_eq, hresources, hperm.length_eq, List.length_map]
  by_cases hempty : scopes.length = 0
  · rw [if_pos hempty, if_pos hempty]
    rfl
  · rw [if_neg hempty, if_neg hempty]
    by_cases hdistinct : DistinctResources scopes
    · have hlength : (unique (scopes.map PremiseValidationScope.resourceId)).length = scopes.length := hdistinct
      rw [if_pos hdistinct, if_neg (not_not_intro hlength)]
      rfl
    · have hlength : (unique (scopes.map PremiseValidationScope.resourceId)).length ≠ scopes.length := hdistinct
      rw [if_neg hdistinct, if_pos hlength]
      rfl

theorem frontierKey_perm (h : Collates digest localeCompare collationKey) (hscopes : ∀ scope ∈ scopes, scope.Complete)
    (hperm : scopes.Perm scopes') : premiseReceiptSharingFrontierKey digest localeCompare scopes
      = premiseReceiptSharingFrontierKey digest localeCompare scopes' := by
  rw [frontierKey_eq hscopes, frontierKey_eq (fun scope hscope => hscopes scope (hperm.mem_iff.mpr hscope)),
    frontierKeys_perm h hperm, hperm.length_eq]
  simp only [distinctResources_perm hperm]

theorem frontierText_injective : Function.Injective frontierText := by
  have henc := jsonStrings_delimited.labelled
    "\x7b\"domain\":\"premise-policy-sharing-frontier/1\",\"members\":".toList
  intro keys keys' h
  exact (henc keys keys' ['}'] ['}'] h).1

theorem sameScopes_of_key (hdigest : Set.InjOn digest texts) (hscopes : ∀ scope ∈ scopes, scope.Complete)
    (hscopes' : ∀ scope ∈ scopes', scope.Complete) (htexts : frontierTexts digest localeCompare scopes ⊆ texts)
    (htexts' : frontierTexts digest localeCompare scopes' ⊆ texts) {key : String}
    (hkey : premiseReceiptSharingFrontierKey digest localeCompare scopes = .ok key)
    (hkey' : premiseReceiptSharingFrontierKey digest localeCompare scopes' = .ok key) :
    ∀ scope ∈ scopes, ∃ scope' ∈ scopes', scope.SameScope scope' := by
  rw [frontierKey_eq hscopes] at hkey
  rw [frontierKey_eq hscopes'] at hkey'
  split_ifs at hkey with hempty hdistinct
  split_ifs at hkey' with hempty' hdistinct'
  have hsame : digestKey digest (frontierText (frontierKeys digest localeCompare scopes))
      = digestKey digest (frontierText (frontierKeys digest localeCompare scopes')) :=
    Except.ok.inj (hkey.trans hkey'.symm)
  have htext := digestKey_inj hdigest (htexts (.inr ⟨_, frontierMembers_eq hscopes, rfl⟩))
    (htexts' (.inr ⟨_, frontierMembers_eq hscopes', rfl⟩)) hsame
  have hkeys : frontierKeys digest localeCompare scopes = frontierKeys digest localeCompare scopes' :=
    frontierText_injective htext
  intro scope hscope
  have hmem : digestKey digest (scopeText scope.normal) ∈ frontierKeys digest localeCompare scopes' := by
    rw [← hkeys]
    exact mem_frontierKeys.mpr ⟨scope, hscope, rfl⟩
  obtain ⟨scope', hscope', hequal⟩ := mem_frontierKeys.mp hmem
  refine ⟨scope', hscope', PremiseValidationScope.normal_eq_iff.mp (scopeText_injective ?_)⟩
  exact digestKey_inj hdigest (htexts (.inl ⟨scope, hscope, .inl rfl⟩)) (htexts' (.inl ⟨scope', hscope', .inl rfl⟩)) hequal

end Frontiers

/-- Scope keys, supersession keys and frontier keys are equal exactly for what they stand for. -/
theorem exactKeys (hdigest : Set.InjOn digest texts) (hlocale : Collates digest localeCompare collationKey) :
    ExactKeys digest localeCompare texts where
  scope := fun _ _ h h' htexts htexts' => PremiseValidationScope.key_eq_iff hdigest h h' htexts htexts'
  supersession := fun _ _ h h' htexts htexts' => PremiseValidationScope.supersession_eq_iff hdigest h h' htexts htexts'
  permuted := fun _ _ hscopes hperm => frontierKey_perm hlocale hscopes hperm
  distinguished := by
    intro scopes scopes' key key' hscopes hscopes' htexts htexts' hkey hkey' hdiffer
    rintro rfl
    rcases hdiffer with ⟨scope, hscope, hdiffer⟩ | ⟨scope', hscope', hdiffer⟩
    · obtain ⟨scope', hscope', hsame⟩ := sameScopes_of_key hdigest hscopes hscopes' htexts htexts' hkey hkey' scope hscope
      exact hdiffer scope' hscope' hsame
    · obtain ⟨scope, hscope, hsame⟩ := sameScopes_of_key hdigest hscopes' hscopes htexts' htexts hkey' hkey scope' hscope'
      have hnormal := PremiseValidationScope.normal_eq_iff.mpr hsame
      exact hdiffer scope hscope (PremiseValidationScope.normal_eq_iff.mp hnormal.symm)

section Tables

variable {table : List (String × String)}

def lookupDigest (table : List (String × String)) (text : String) : String :=
  ((table.find? (fun entry => entry.1 = text)).map Prod.snd).getD ""

def tabulated (table : List (String × String)) : Set String := fun text => text ∈ table.map Prod.fst

@[simp] theorem lookupDigest_cons_self (text digest : String) : lookupDigest ((text, digest) :: table) text = digest := by
  simp [lookupDigest]

theorem lookupDigest_cons_of_ne {text text' : String} (h : text ≠ text') (digest : String) :
    lookupDigest ((text, digest) :: table) text' = lookupDigest table text' := by
  simp [lookupDigest, h]

theorem lookupDigest_mem {text : String} (h : text ∈ tabulated table) : (text, lookupDigest table text) ∈ table := by
  obtain ⟨entry, hentry, rfl⟩ := List.mem_map.mp h
  unfold lookupDigest
  cases hfind : table.find? (fun found => found.1 = entry.1) with
  | none =>
    have hnone := List.find?_eq_none.mp hfind entry hentry
    exact absurd (decide_eq_true rfl) hnone
  | some found =>
    have htext := List.find?_some hfind
    rw [← of_decide_eq_true htext]
    exact List.mem_of_find?_eq_some hfind

theorem lookupDigest_injOn (hdigests : (table.map Prod.snd).Nodup) : Set.InjOn (lookupDigest table) (tabulated table) := by
  intro text htext text' htext' hequal
  have hmem := lookupDigest_mem htext
  have hmem' := lookupDigest_mem htext'
  rw [hequal] at hmem
  exact (Prod.mk.inj (List.inj_on_of_nodup_map hdigests hmem hmem' rfl)).1

end Tables

/-! ## Two resources -/

/-- `read` on one version of the resource. -/
def scopeOf (resourceId : String) : PremiseValidationScope where
  tenantId := "t"
  resourceId := resourceId
  incarnationId := "i"
  versionScheme := "git"
  versionToken := "1"
  validatorId := "v"
  authorizationContextDigest := "a"
  policyDigest := "p"
  queryDigest := "q"
  scopes := ["read"]
  changeSetDigest := none
  causalFrontier := []

def keyA : String := "sha256:ef0ef85ad3586c27201c61dabd7584daccad9d235a5526d9150351fd18e687f2"

def keyB : String := "sha256:f89b9510dedf356222d250d0b60c691a890701677ffb184d94329a1f2c25796b"

/-- The texts of the resources `a` and `b` and of two frontiers of them, with their SHA-256 digests. -/
def frontierTable : List (String × String) :=
  [(String.ofList (scopeText (scopeOf "a")), "ef0ef85ad3586c27201c61dabd7584daccad9d235a5526d9150351fd18e687f2"),
    (String.ofList (scopeText (scopeOf "b")), "f89b9510dedf356222d250d0b60c691a890701677ffb184d94329a1f2c25796b"),
    (String.ofList (supersessionText (scopeOf "a")), "908ffcde69c516904343ddc95761049b9edc190acfcf387e1cd4ba84ff9dbf8e"),
    (String.ofList (supersessionText (scopeOf "b")), "93b8d46cfb2ed7ac32cf48ea6681cceef4c383af4da15ed11bb846aaa1a25ccc"),
    (String.ofList (frontierText [keyA, keyB]), "c3039cfd27437eabf122dc2714dfea71e7c51dae91d88f588b37255f08bda715"),
    (String.ofList (frontierText [keyB]), "95cf89db790e7aec919f4f9c2e7937059ab2552fccc5ff87132205f3dd3ddb5a")]

def frontierDigest : String → String := lookupDigest frontierTable

theorem frontierDigest_injOn : Set.InjOn frontierDigest (tabulated frontierTable) :=
  lookupDigest_injOn (by decide +kernel)

/-- A comparison by code units, as `localeCompare` compares lower-case letters and digits. -/
def compareUnits (left right : String) : Int :=
  if left = right then 0 else if UnitsLe left right then -1 else 1

theorem compares_units : Compares compareUnits codeUnits := by
  have hne : ∀ {left right : String}, left ≠ right → codeUnits left ≠ codeUnits right :=
    fun h hunits => h (codeUnits_injective hunits)
  constructor
  · intro left right
    unfold compareUnits
    split_ifs with heq hle
    · simp [heq]
    · exact iff_of_true (by decide) hle
    · exact iff_of_false (by decide) hle
  · intro left right
    unfold compareUnits
    split_ifs with heq hle
    · simp [heq]
    · exact iff_of_false (by decide) fun hge => hne heq (le_antisymm hle hge)
    · exact iff_of_true (by decide) (le_of_not_ge hle)

theorem collates_units (digest : String → String) : Collates digest compareUnits codeUnits where
  compares := compares_units
  digests := by
    intro text text' h
    have hlist := congrArg String.toList (codeUnits_injective h)
    rw [String.toList_append, String.toList_append] at hlist
    exact String.toList_injective (List.append_cancel_left hlist)

theorem scopeOf_complete {resourceId : String} (h : resourceId ∈ ["a", "b"]) : (scopeOf resourceId).Complete := by
  rcases List.mem_pair.mp h with rfl | rfl
  · decide +kernel
  · decide +kernel

theorem digestKey_a : digestKey frontierDigest (scopeText (scopeOf "a")) = keyA := by
  unfold digestKey frontierDigest frontierTable
  rw [lookupDigest_cons_self]
  rfl

theorem digestKey_b : digestKey frontierDigest (scopeText (scopeOf "b")) = keyB := by
  have htexts : String.ofList (scopeText (scopeOf "a")) ≠ String.ofList (scopeText (scopeOf "b")) := by
    intro h
    have hscopes := scopeText_injective (String.ofList_injective h)
    exact absurd (congrArg PremiseValidationScope.resourceId hscopes) (by decide)
  unfold digestKey frontierDigest frontierTable
  rw [lookupDigest_cons_of_ne htexts, lookupDigest_cons_self]
  rfl

theorem frontierKeys_ab : frontierKeys frontierDigest compareUnits [scopeOf "a", scopeOf "b"] = [keyA, keyB] := by
  have hordered : compareMembers compareUnits (memberOf frontierDigest (scopeOf "a")) (memberOf frontierDigest (scopeOf "b")) ≤ 0 := by
    have hunits : compareUnits "a" "b" = -1 := by decide +kernel
    show orElse (compareUnits "a" "b") _ ≤ 0
    rw [hunits]
    decide
  unfold frontierKeys sortBy
  rw [List.map_cons, List.map_cons, List.map_nil, List.insertionSort_cons, List.insertionSort_cons, List.insertionSort_nil,
    List.orderedInsert_nil, List.orderedInsert_cons, if_pos hordered]
  show [digestKey frontierDigest (scopeText (scopeOf "a")), digestKey frontierDigest (scopeText (scopeOf "b"))] = _
  rw [digestKey_a, digestKey_b]

theorem frontierKeys_b : frontierKeys frontierDigest compareUnits [scopeOf "b"] = [keyB] := by
  show [digestKey frontierDigest (scopeText (scopeOf "b"))] = _
  rw [digestKey_b]

theorem texts_tabulated {resourceId : String} (h : resourceId ∈ ["a", "b"]) :
    (scopeOf resourceId).texts ⊆ tabulated frontierTable := by
  rintro text (rfl | rfl)
  · rcases List.mem_pair.mp h with rfl | rfl
    · exact List.mem_cons_self
    · exact List.mem_cons_of_mem _ List.mem_cons_self
  · rcases List.mem_pair.mp h with rfl | rfl
    · exact List.mem_cons_of_mem _ (List.mem_cons_of_mem _ List.mem_cons_self)
    · exact List.mem_cons_of_mem _ (List.mem_cons_of_mem _ (List.mem_cons_of_mem _ List.mem_cons_self))

theorem frontierTexts_tabulated (resourceIds : List String) (h : ∀ resourceId ∈ resourceIds, resourceId ∈ ["a", "b"])
    (hfrontier : String.ofList (frontierText (frontierKeys frontierDigest compareUnits (resourceIds.map scopeOf)))
      ∈ tabulated frontierTable) :
    frontierTexts frontierDigest compareUnits (resourceIds.map scopeOf) ⊆ tabulated frontierTable := by
  have hcomplete : ∀ scope ∈ resourceIds.map scopeOf, scope.Complete := by
    intro scope hscope
    obtain ⟨resourceId, hmem, rfl⟩ := List.mem_map.mp hscope
    exact scopeOf_complete (h resourceId hmem)
  rintro text (⟨scope, hscope, htext⟩ | ⟨members, hmembers, rfl⟩)
  · obtain ⟨resourceId, hmem, rfl⟩ := List.mem_map.mp hscope
    exact texts_tabulated (h resourceId hmem) htext
  · obtain rfl := Except.ok.inj ((frontierMembers_eq hcomplete).symm.trans hmembers)
    exact hfrontier

/-- The frontier of `a` and `b` has one key in both orders, which is not the key of `b` alone. -/
theorem exactKeys_ab : premiseReceiptSharingFrontierKey frontierDigest compareUnits [scopeOf "a", scopeOf "b"]
      = premiseReceiptSharingFrontierKey frontierDigest compareUnits [scopeOf "b", scopeOf "a"] ∧
    ∃ key key', premiseReceiptSharingFrontierKey frontierDigest compareUnits [scopeOf "a", scopeOf "b"] = .ok key ∧
      premiseReceiptSharingFrontierKey frontierDigest compareUnits [scopeOf "b"] = .ok key' ∧ key ≠ key' := by
  have hkeys : ExactKeys frontierDigest compareUnits (tabulated frontierTable) :=
    exactKeys frontierDigest_injOn (collates_units frontierDigest)
  have hab : ∀ scope ∈ [scopeOf "a", scopeOf "b"], scope.Complete :=
    List.forall_mem_cons.mpr ⟨scopeOf_complete (by decide), List.forall_mem_singleton.mpr (scopeOf_complete (by decide))⟩
  have hb : ∀ scope ∈ [scopeOf "b"], scope.Complete := List.forall_mem_singleton.mpr (scopeOf_complete (by decide))
  refine ⟨hkeys.permuted _ _ hab (List.Perm.swap _ _ _), ?_⟩
  have htexts : frontierTexts frontierDigest compareUnits [scopeOf "a", scopeOf "b"] ⊆ tabulated frontierTable := by
    refine frontierTexts_tabulated ["a", "b"] (by decide) ?_
    rw [List.map_cons, List.map_cons, List.map_nil, frontierKeys_ab]
    exact List.mem_cons_of_mem _ (List.mem_cons_of_mem _ (List.mem_cons_of_mem _ (List.mem_cons_of_mem _ List.mem_cons_self)))
  have htexts' : frontierTexts frontierDigest compareUnits [scopeOf "b"] ⊆ tabulated frontierTable := by
    refine frontierTexts_tabulated ["b"] (by decide) ?_
    rw [List.map_cons, List.map_nil, frontierKeys_b]
    exact List.mem_cons_of_mem _ (List.mem_cons_of_mem _ (List.mem_cons_of_mem _ (List.mem_cons_of_mem _
      (List.mem_cons_of_mem _ List.mem_cons_self))))
  have hkey : premiseReceiptSharingFrontierKey frontierDigest compareUnits [scopeOf "a", scopeOf "b"] = _ :=
    frontierKey_eq hab
  have hkey' : premiseReceiptSharingFrontierKey frontierDigest compareUnits [scopeOf "b"] = _ := frontierKey_eq hb
  rw [if_neg (by decide), if_pos (by decide +kernel)] at hkey hkey'
  refine ⟨_, _, hkey, hkey', hkeys.distinguished _ _ _ _ hab hb htexts htexts' hkey hkey' (.inl ⟨scopeOf "a", ?_, ?_⟩)⟩
  · exact List.mem_cons_self
  · intro scope hscope hsame
    obtain rfl := List.mem_singleton.mp hscope
    exact absurd hsame.resourceId (by decide)

end Premise.ValidationScope
