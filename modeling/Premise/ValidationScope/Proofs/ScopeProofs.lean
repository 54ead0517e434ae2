import Premise.ValidationScope.Scope

/-!
# Scopes are told apart by their texts

Normalizing again changes nothing, and the canonical text of a normalized scope determines it.
-/

namespace Premise.ValidationScope

open Collections Js

theorem requiredAll_eq_ok {fields : List (String × String)} :
    requiredAll fields = .ok () ↔ ∀ p ∈ fields, validText p.2 = true := by
  induction fields with
  | nil => exact ⟨fun _ => nofun, fun _ => rfl⟩
  | cons p fields ih =>
    obtain ⟨name, value⟩ := p
    unfold requiredAll
    constructor
    · intro h
      split_ifs at h with hvalid
      exact List.forall_mem_cons.mpr ⟨hvalid, ih.mp h⟩
    · intro h
      obtain ⟨hvalid, hrest⟩ := List.forall_mem_cons.mp h
      rw [if_pos hvalid]
      exact ih.mpr hrest

theorem mem_namedItems {name : String} {values : List String} {p : String × String}
    (h : p ∈ namedItems name values) : p.2 ∈ values := by
  obtain ⟨q, hq, rfl⟩ := List.mem_map.mp h
  exact (List.mem_zipIdx hq).2.2 ▸ List.getElem_mem _

theorem mem_namedItems_of_mem (name : String) {values : List String} {value : String}
    (h : value ∈ values) : ∃ p ∈ namedItems name values, p.2 = value := by
  obtain ⟨i, hi, rfl⟩ := List.getElem_of_mem h
  refine ⟨_, List.mem_map.mpr ⟨(values[i], i), ?_, rfl⟩, rfl⟩
  exact List.mk_mem_zipIdx_iff_getElem?.mpr (List.getElem?_eq_getElem hi)

theorem canonicalSet_canonicalSet (l : List String) :
    sortStrings (unique (sortStrings (unique l))) = sortStrings (unique l) := by
  have hnodup : (sortStrings (unique l)).Nodup := sortStrings_nodup (unique_nodup l)
  rw [unique_of_nodup hnodup]
  exact (sortStrings_sorted _).insertionSort_eq

namespace PremiseValidationScope

variable {scope scope' : PremiseValidationScope}

theorem normal_normal (scope : PremiseValidationScope) : scope.normal.normal = scope.normal := by
  unfold normal
  rw [canonicalSet_canonicalSet, canonicalSet_canonicalSet]

theorem normalize_ok (h : normalizePremiseValidationScope scope = .ok scope') : scope' = scope.normal := by
  unfold normalizePremiseValidationScope at h
  cases hfields : requiredAll scope.requiredFields with
  | error err =>
    rw [hfields] at h
    cases h
  | ok u =>
    rw [hfields] at h
    exact (Except.ok.inj h).symm

theorem normalize_again (h : normalizePremiseValidationScope scope = .ok scope') :
    normalizePremiseValidationScope scope' = .ok scope' := by
  obtain rfl := normalize_ok h
  have hvalid : ∀ p ∈ scope.requiredFields, validText p.2 = true := by
    unfold normalizePremiseValidationScope at h
    cases hfields : requiredAll scope.requiredFields with
    | error err =>
      rw [hfields] at h
      cases h
    | ok u => exact requiredAll_eq_ok.mp hfields
  have hset : ∀ (name : String) (values : List String), (∀ p ∈ namedItems name values, validText p.2 = true) →
      ∀ p ∈ namedItems name (sortStrings (unique values)), validText p.2 = true := by
    intro name values hvalues p hp
    have hmem := mem_namedItems hp
    rw [mem_sortStrings, mem_unique] at hmem
    obtain ⟨q, hq, hqp⟩ := mem_namedItems_of_mem name hmem
    exact hqp ▸ hvalues q hq
  have hnormal : requiredAll scope.normal.requiredFields = .ok () := by
    apply requiredAll_eq_ok.mpr
    unfold requiredFields at hvalid ⊢
    intro p hp
    rcases List.mem_append.mp hp with hp | hp
    · rcases List.mem_append.mp hp with hp | hp
      · exact hvalid p (List.mem_append_left _ (List.mem_append_left _ hp))
      · apply hset "scopes" scope.scopes _ p hp
        exact fun q hq => hvalid q (List.mem_append_left _ (List.mem_append_right _ hq))
    · apply hset "causalFrontier" scope.causalFrontier _ p hp
      exact fun q hq => hvalid q (List.mem_append_right _ hq)
  unfold normalizePremiseValidationScope
  rw [hnormal]
  exact congrArg Except.ok (normal_normal scope)

end PremiseValidationScope

theorem scopeText_injective : Function.Injective scopeText := by
  have hstring := jsonString_delimited
  have hstrings := jsonStrings_delimited
  have henc := (hstring.labelled
    "\x7b\"domain\":\"premise-validation-scope/1\",\"tenantId\":".toList).pair
    ((hstring.labelled ",\"resourceId\":".toList).pair
    ((hstring.labelled ",\"incarnationId\":".toList).pair
    ((hstring.labelled ",\"versionScheme\":".toList).pair
    ((hstring.labelled ",\"versionToken\":".toList).pair
    ((hstring.labelled ",\"validatorId\":".toList).pair
    ((hstring.labelled ",\"authorizationContextDigest\":".toList).pair
    ((hstring.labelled ",\"policyDigest\":".toList).pair
    ((hstring.labelled ",\"queryDigest\":".toList).pair
    ((hstrings.labelled ",\"scopes\":".toList).pair
    ((jsonNullable_delimited.labelled ",\"changeSetDigest\":".toList).pair
    (hstrings.labelled ",\"causalFrontier\":".toList)))))))))))
  intro s s' h
  have heq := henc (s.tenantId, s.resourceId, s.incarnationId, s.versionScheme, s.versionToken,
    s.validatorId, s.authorizationContextDigest, s.policyDigest, s.queryDigest, s.scopes,
    s.changeSetDigest, s.causalFrontier) (s'.tenantId, s'.resourceId, s'.incarnationId,
    s'.versionScheme, s'.versionToken, s'.validatorId, s'.authorizationContextDigest,
    s'.policyDigest, s'.queryDigest, s'.scopes, s'.changeSetDigest, s'.causalFrontier) ['}'] ['}']
  unfold scopeText at h
  simp only [List.append_assoc] at h heq
  obtain ⟨htuple, -⟩ := heq h
  cases s
  cases s'
  simpa only [Prod.mk.injEq, PremiseValidationScope.mk.injEq] using htuple

theorem supersessionText_eq {s s' : PremiseValidationScope}
    (h : supersessionText s = supersessionText s') :
    s.tenantId = s'.tenantId ∧ s.resourceId = s'.resourceId ∧ s.incarnationId = s'.incarnationId ∧
      s.versionScheme = s'.versionScheme ∧ s.versionToken = s'.versionToken := by
  have hstring := jsonString_delimited
  have henc := (hstring.labelled
    "\x7b\"domain\":\"premise-validation-supersession/1\",\"tenantId\":".toList).pair
    ((hstring.labelled ",\"resourceId\":".toList).pair
    ((hstring.labelled ",\"incarnationId\":".toList).pair
    ((hstring.labelled ",\"versionScheme\":".toList).pair
    (hstring.labelled ",\"versionToken\":".toList))))
  have heq := henc (s.tenantId, s.resourceId, s.incarnationId, s.versionScheme, s.versionToken)
    (s'.tenantId, s'.resourceId, s'.incarnationId, s'.versionScheme, s'.versionToken) ['}'] ['}']
  unfold supersessionText at h
  simp only [List.append_assoc] at h heq
  obtain ⟨htuple, -⟩ := heq h
  simpa only [Prod.mk.injEq] using htuple

theorem scopeText_ne_supersessionText (s s' : PremiseValidationScope) : scopeText s ≠ supersessionText s' := by
  intro h
  have hlabel : ∀ {label rest text : List Char}, label ++ rest = text → label <+: text := fun h => ⟨_, h⟩
  unfold scopeText supersessionText at h
  simp only [List.append_assoc] at h
  have hlabels := List.prefix_or_prefix_of_prefix (hlabel rfl) (hlabel h)
  revert hlabels
  decide +kernel

def digestKey (digest : String → String) (text : List Char) : String :=
  "sha256:" ++ digest (String.ofList text)

theorem digestKey_inj {digest : String → String} {texts : Set String}
    (hdigest : Set.InjOn digest texts) {text text' : List Char}
    (ht : String.ofList text ∈ texts) (ht' : String.ofList text' ∈ texts)
    (h : digestKey digest text = digestKey digest text') : text = text' := by
  have hlist := congrArg String.toList h
  unfold digestKey at hlist
  rw [String.toList_append, String.toList_append] at hlist
  have hsame := String.toList_injective (List.append_cancel_left hlist)
  exact String.ofList_injective (hdigest ht ht' hsame)

section Keys

variable {digest : String → String} {scope scope' : PremiseValidationScope}

theorem scopeKey_eq (h : normalizePremiseValidationScope scope = .ok scope') :
    premiseValidationScopeKey digest scope = .ok (digestKey digest (scopeText scope')) := by
  unfold premiseValidationScopeKey canonicalPremiseValidationScope
  rw [h]
  rfl

theorem supersessionKey_eq (h : normalizePremiseValidationScope scope = .ok scope') :
    premiseValidationSupersessionKey digest scope
      = .ok (digestKey digest (supersessionText scope')) := by
  unfold premiseValidationSupersessionKey canonicalPremiseValidationSupersessionScope
  rw [h]
  rfl

end Keys

end Premise.ValidationScope
