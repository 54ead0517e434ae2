import Premise.Protocol.Migration

/-!
# Proofs: migration

What the old version has accepted leaves the new one nothing to complain about but the fields of versions
and validators, which are kept as they are.
-/

namespace Premise.Protocol

open Js V1Document V2Document

/-! ## Issues -/

variable {path key : String} {value : Option Json} {fields : List (String × Json)}

theorem flag_eq_nil {wrong : Bool} {message : String} : flag wrong path message = [] ↔ wrong = false := by
  unfold flag
  cases wrong <;> simp

theorem isText_iff {p : String → Bool} : isText p value = true ↔ ∃ s, value = some (.string s) ∧ p s = true := by
  unfold isText
  constructor
  · intro h
    split at h
    · exact ⟨_, rfl, h⟩
    · cases h
  · rintro ⟨s, rfl, hs⟩
    exact hs

theorem isRecord_iff : isRecord value = true ↔ ∃ fields, value = some (.object fields) := by
  unfold isRecord
  constructor
  · intro h
    split at h
    · exact ⟨_, rfl⟩
    · cases h
  · rintro ⟨fields, rfl⟩
    rfl

theorem itemsOf_eq_some {items : List Json} : itemsOf value = some items ↔ value = some (.array items) := by
  unfold itemsOf
  constructor
  · intro h
    split at h
    · cases h
      rfl
    · cases h
  · rintro rfl
    rfl

theorem field_object (key : String) (fields : List (String × Json)) :
    (Json.object fields).field key = (fields.find? (fun p => p.1 == key)).map Prod.snd := rfl

theorem field_cons_self (key : String) (value : Json) (fields : List (String × Json)) :
    (Json.object ((key, value) :: fields)).field key = some value := by
  rw [field_object, List.find?_cons_of_pos (by simp)]
  rfl

theorem field_cons_of_ne {other : String} (h : other ≠ key) (value : Json) (fields : List (String × Json)) :
    (Json.object ((other, value) :: fields)).field key = (Json.object fields).field key := by
  rw [field_object, List.find?_cons_of_neg (by simpa using h)]
  rfl

theorem field_optional_of_ne {other : String} (h : other ≠ key) (value : Option Json)
    (fields : List (String × Json)) :
    (Json.object (Json.optional other value ++ fields)).field key = (Json.object fields).field key := by
  cases value with
  | none => rfl
  | some value => exact field_cons_of_ne h value fields

theorem field_optional_self (value : Option Json) (h : (Json.object fields).field key = none) :
    (Json.object (Json.optional key value ++ fields)).field key = value := by
  cases value with
  | none => exact h
  | some value => exact field_cons_self key value fields

theorem rejectUnknown_eq_nil {allowed : List String} :
    V2Document.rejectUnknown (.object fields) path allowed = [] ↔ ∀ p ∈ fields, p.1 ∈ allowed := by
  unfold V2Document.rejectUnknown
  simp only [List.flatMap_eq_nil_iff, flag_eq_nil, decide_eq_false_iff_not, not_not]

/-- A version that the old version accepts has the fields that the new one requires. -/
theorem isPair_iff {first second : String} : isPair value first second = true ↔ ∃ fields, value = some (.object fields) ∧
      isText isNonEmptyString ((Json.object fields).field first) = true ∧
      isText isNonEmptyString ((Json.object fields).field second) = true := by
  unfold isPair
  rw [Bool.and_eq_true, Bool.and_eq_true, isRecord_iff]
  constructor
  · rintro ⟨⟨⟨fields, rfl⟩, hfirst⟩, hsecond⟩
    exact ⟨fields, rfl, hfirst, hsecond⟩
  · rintro ⟨fields, rfl, hfirst, hsecond⟩
    exact ⟨⟨⟨fields, rfl⟩, hfirst⟩, hsecond⟩

theorem hasOnly_object {allowed : List String} : HasOnly (some (.object fields)) allowed ↔ ∀ p ∈ fields, p.1 ∈ allowed := by
  constructor
  · exact fun h => h fields rfl
  · rintro h fields' heq
    obtain rfl := Json.object.inj (Option.some.inj heq)
    exact h

theorem validateVersion_eq_nil (h : isPair value "scheme" "token" = true) (path : String) :
    V2Document.validateVersion value path = [] ↔ HasOnly value ["scheme", "token"] := by
  obtain ⟨fields, rfl, hscheme, htoken⟩ := isPair_iff.mp h
  rw [hasOnly_object]
  unfold V2Document.validateVersion ofRecord requireText
  dsimp only
  rw [hscheme, htoken, List.append_eq_nil_iff, List.append_eq_nil_iff, rejectUnknown_eq_nil]
  exact ⟨fun hall => hall.1.1, fun hall => ⟨⟨hall, rfl⟩, rfl⟩⟩

theorem validateValidator_eq_nil (h : isPair value "id" "operation" = true) (path : String) :
    V2Document.validateValidator value path = [] ↔ HasOnly value ["id", "operation"] := by
  obtain ⟨fields, rfl, hid, hoperation⟩ := isPair_iff.mp h
  rw [hasOnly_object]
  unfold V2Document.validateValidator ofRecord requireText
  dsimp only
  rw [hid, hoperation, List.append_eq_nil_iff, List.append_eq_nil_iff, rejectUnknown_eq_nil]
  exact ⟨fun hall => hall.1.1, fun hall => ⟨⟨hall, rfl⟩, rfl⟩⟩

/-! ## Sources -/

/-- A source that the old version accepts. -/
structure AcceptedSource (source : Json) : Prop where
  sourceUri : isText isNonEmptyString (source.field "sourceUri") = true
  observedAt : isText isDateTime (source.field "observedAt") = true
  references : (source.field "version" = none ∧ source.field "validator" = none) ∨
    (isPair (source.field "version") "scheme" "token" = true ∧
      isPair (source.field "validator") "id" "operation" = true)

variable {source : Json}

theorem acceptedSource_of_valid (h : V1Document.validateSource source path = []) : AcceptedSource source := by
  unfold V1Document.validateSource at h
  split_ifs at h with hrecord hversion hvalidator hvalidator
  · simp only [List.append_eq_nil_iff, V1.addIf_eq_nil, V1Document.validateVersion,
      V1Document.validateValidator, Bool.not_eq_false'] at h
    exact ⟨h.1.1.1.1, h.1.1.1.2, Or.inr ⟨h.1.2, h.2⟩⟩
  · simp [hversion, hvalidator, V1.addIf] at h
  · simp [hversion, hvalidator, V1.addIf] at h
  · simp only [List.append_eq_nil_iff, V1.addIf_eq_nil, Bool.not_eq_false'] at h
    unfold has at hversion hvalidator
    rw [Option.not_isSome_iff_eq_none] at hversion hvalidator
    exact ⟨h.1.1.1.1, h.1.1.1.2, Or.inl ⟨hversion, hvalidator⟩⟩

theorem valueOf_of_some {value : Json} {found : Json} (h : value.field key = some found) :
    valueOf (some value) key = found := by
  unfold valueOf fieldOf
  rw [Option.bind_some, h]
  rfl

theorem carries_migrateSource (h : AcceptedSource source) (index : Nat) :
    Carries source (migrateSource source index) index := by
  obtain ⟨uri, huri, -⟩ := isText_iff.mp h.sourceUri
  have hfields : ∀ key, key ≠ "evidenceId" → key ≠ "sourceUri" → key ≠ "observedAt" →
      (migrateSource source index).field key = (Json.object (migrateReferences source)).field key := by
    intro key hid huri' hobserved
    unfold migrateSource
    rw [List.cons_append, List.cons_append, List.cons_append, List.nil_append,
      field_cons_of_ne hid.symm, field_cons_of_ne huri'.symm, field_cons_of_ne hobserved.symm]
  refine ⟨field_cons_self _ _ _, ?_, ?_, ?_⟩
  · show (migrateSource source index).field "sourceUri" = _
    unfold migrateSource
    rw [List.cons_append, field_cons_of_ne (by decide), List.cons_append, field_cons_self, valueOf_of_some huri, huri]
  · show (migrateSource source index).field "version" = _
    rw [hfields "version" (by decide) (by decide) (by decide)]
    unfold migrateReferences
    rcases h.references with ⟨hversion, hvalidator⟩ | ⟨hversion, hvalidator⟩
    · rw [hversion]
      rfl
    · obtain ⟨version, hversion, -⟩ := isPair_iff.mp hversion
      obtain ⟨validator, hvalidator, -⟩ := isPair_iff.mp hvalidator
      rw [hversion, hvalidator]
      exact field_cons_self _ _ _
  · show (migrateSource source index).field "validator" = _
    rw [hfields "validator" (by decide) (by decide) (by decide)]
    unfold migrateReferences
    rcases h.references with ⟨hversion, hvalidator⟩ | ⟨hversion, hvalidator⟩
    · rw [hversion, hvalidator]
      rfl
    · obtain ⟨version, hversion, -⟩ := isPair_iff.mp hversion
      obtain ⟨validator, hvalidator, -⟩ := isPair_iff.mp hvalidator
      rw [hversion, hvalidator]
      rw [field_cons_of_ne (by decide), field_cons_self]

theorem field_migrateSource_eq_none (source : Json) (index : Nat) {key : String}
    (h : key ∉ ["evidenceId", "sourceUri", "observedAt", "version", "validator"]) :
    (migrateSource source index).field key = none := by
  simp only [List.mem_cons, List.not_mem_nil, or_false, not_or] at h
  unfold migrateSource
  rw [List.cons_append, List.cons_append, List.cons_append, List.nil_append,
    field_cons_of_ne (Ne.symm h.1), field_cons_of_ne (Ne.symm h.2.1), field_cons_of_ne (Ne.symm h.2.2.1)]
  unfold migrateReferences
  split
  · rw [field_cons_of_ne (Ne.symm h.2.2.2.1), field_cons_of_ne (Ne.symm h.2.2.2.2)]
    rfl
  · rfl

theorem migrateSource_fields (source : Json) (index : Nat) : ∃ fields, migrateSource source index = .object fields ∧
      ∀ p ∈ fields, p.1 ∈ ["evidenceId", "sourceUri", "observedAt", "version", "validator"] := by
  refine ⟨_, rfl, ?_⟩
  intro p hp
  rcases List.mem_append.mp hp with hp | hp
  · simp only [List.mem_cons, List.not_mem_nil, or_false] at hp
    rcases hp with rfl | rfl | rfl <;> simp
  · unfold migrateReferences at hp
    split at hp
    · simp only [List.mem_cons, List.not_mem_nil, or_false] at hp
      rcases hp with rfl | rfl <;> simp
    · cases hp

/-- The references of an accepted source are accepted if they have no other fields. -/
theorem references_eq_nil (h : AcceptedSource source) (path : String) :
    ((if has source "version" then V2Document.validateVersion (source.field "version")
        (path ++ ".version") else []) = [] ∧
      (if has source "validator" then V2Document.validateValidator (source.field "validator")
        (path ++ ".validator") else []) = []) ↔
    HasOnly (source.field "version") ["scheme", "token"] ∧
      HasOnly (source.field "validator") ["id", "operation"] := by
  unfold has
  rcases h.references with ⟨hversion, hvalidator⟩ | ⟨hversion, hvalidator⟩
  · rw [hversion, hvalidator]
    exact ⟨fun _ => ⟨nofun, nofun⟩, fun _ => ⟨rfl, rfl⟩⟩
  · have hboth : (source.field "version").isSome = true ∧ (source.field "validator").isSome = true := by
      obtain ⟨version, heq, -⟩ := isPair_iff.mp hversion
      obtain ⟨validator, heq', -⟩ := isPair_iff.mp hvalidator
      rw [heq, heq']
      exact ⟨rfl, rfl⟩
    rw [if_pos hboth.1, if_pos hboth.2, validateVersion_eq_nil hversion, validateValidator_eq_nil hvalidator]

theorem validateEvidence_eq_nil (h : AcceptedSource source) (index : Nat) (path : String) :
    V2Document.validateEvidence (migrateSource source index) path = [] ↔
      HasOnly (source.field "version") ["scheme", "token"] ∧
        HasOnly (source.field "validator") ["id", "operation"] := by
  have hcarries := carries_migrateSource h index
  obtain ⟨fields, hfields, hallowed⟩ := migrateSource_fields source index
  obtain ⟨observed, hobserved, hdate⟩ := isText_iff.mp h.observedAt
  have hunknown : V2Document.rejectUnknown (migrateSource source index) path
      ["evidenceId", "sourceUri", "observedAt", "validFrom", "validUntil", "version", "validator",
        "confidence", "kind"] = [] := by
    rw [hfields, rejectUnknown_eq_nil]
    intro p hp
    have hp := hallowed p hp
    simp only [List.mem_cons, List.not_mem_nil, or_false] at hp ⊢
    tauto
  have hevidenceId : isText isNonEmptyString ((migrateSource source index).field "evidenceId") = true := by
    rw [hcarries.identity]
    refine isText_iff.mpr ⟨_, rfl, V1.isNonEmptyString_iff.mpr ?_⟩
    intro hempty
    have hlist := congrArg String.toList hempty
    rw [String.toList_append] at hlist
    exact absurd (List.append_eq_nil_iff.mp hlist).1 (by decide)
  have hobservedAt : isText isDateTime ((migrateSource source index).field "observedAt") = true := by
    have hfield : (migrateSource source index).field "observedAt" = some (.string observed) := by
      unfold migrateSource
      rw [List.cons_append, field_cons_of_ne (by decide), List.cons_append, field_cons_of_ne (by decide),
        List.cons_append, field_cons_self, valueOf_of_some hobserved]
    rw [hfield]
    exact hdate
  have hwindow : V2Document.validateWindow (migrateSource source index) path = [] := by
    unfold V2Document.validateWindow allowText has
    rw [field_migrateSource_eq_none source index (by decide), field_migrateSource_eq_none source index (by decide)]
    rfl
  have hconfidence := @field_migrateSource_eq_none source index "confidence" (by decide)
  have hkind := @field_migrateSource_eq_none source index "kind" (by decide)
  have htogether : (has source "version" != has source "validator") = false := by
    unfold has
    rcases h.references with ⟨hversion, hvalidator⟩ | ⟨hversion, hvalidator⟩
    · rw [hversion, hvalidator]
      rfl
    · obtain ⟨version, heq, -⟩ := isPair_iff.mp hversion
      obtain ⟨validator, heq', -⟩ := isPair_iff.mp hvalidator
      rw [heq, heq']
      rfl
  have hversion : has (migrateSource source index) "version" = has source "version" :=
    congrArg Option.isSome hcarries.version
  have hvalidator : has (migrateSource source index) "validator" = has source "validator" :=
    congrArg Option.isSome hcarries.validator
  rw [← references_eq_nil h path]
  unfold V2Document.validateEvidence ofRecord
  rw [hfields]
  dsimp only
  rw [← hfields, hunknown]
  unfold requireText allowText
  rw [hevidenceId, hcarries.sourceUri, h.sourceUri, hobservedAt, hwindow, hversion, hvalidator, htogether,
    hcarries.version, hcarries.validator]
  unfold has
  rw [hconfidence, hkind]
  simp only [List.append_eq_nil_iff, flag, Bool.not_true, Option.isSome_none, Bool.false_eq_true, if_false,
    List.nil_append, List.append_nil]

theorem validateItems_eq_nil {items : List Json} {check : Json → String → List V2ValidationIssue} :
    validateItems (some (.array items)) path key check = [] ↔
      ∀ i item, items[i]? = some item → check item (path ++ "[" ++ toString i ++ "]") = [] ∧
        ∀ id, idOf key item = some id → id ∉ (items.take i).filterMap (idOf key) := by
  unfold validateItems itemsOf
  rw [List.flatMap_eq_nil_iff]
  have hmem : ∀ p, p ∈ (indexed path items).zipIdx ↔
      items[p.2]? = some p.1.2 ∧ p.1.1 = path ++ "[" ++ toString p.2 ++ "]" := by
    rintro ⟨⟨label, item⟩, i⟩
    rw [List.mk_mem_zipIdx_iff_getElem?]
    unfold indexed
    rw [List.getElem?_map, List.getElem?_zipIdx, Option.map_map, Option.map_eq_some_iff]
    simp only [Nat.zero_add, Function.comp_apply, Prod.mk.injEq]
    constructor
    · rintro ⟨item', hitem, rfl, rfl⟩
      exact ⟨hitem, rfl⟩
    · rintro ⟨hitem, rfl⟩
      exact ⟨item, hitem, rfl, rfl⟩
  constructor
  · intro h i item hitem
    have hp := h ⟨⟨path ++ "[" ++ toString i ++ "]", item⟩, i⟩ ((hmem _).mpr ⟨hitem, rfl⟩)
    rw [List.append_eq_nil_iff, flag_eq_nil] at hp
    refine ⟨hp.1, fun id hid hin => ?_⟩
    rw [hid, Option.any_some, decide_eq_false_iff_not] at hp
    exact hp.2 hin
  · rintro h ⟨⟨label, item⟩, i⟩ hp
    obtain ⟨hitem, hlabel⟩ := (hmem _).mp hp
    obtain ⟨hcheck, hnew⟩ := h i item hitem
    rw [List.append_eq_nil_iff, flag_eq_nil]
    refine ⟨?_, ?_⟩
    · rw [hlabel]
      exact hcheck
    · dsimp only
      cases hid : idOf key item with
      | none => rfl
      | some id =>
        rw [Option.any_some, decide_eq_false_iff_not]
        exact hnew id hid

theorem validateItems_nil (path key : String) (check : Json → String → List V2ValidationIssue) :
    validateItems (some (.array [])) path key check = [] :=
  validateItems_eq_nil.mpr nofun

theorem validateItems_evidence {sources : List Json} (h : ∀ source ∈ sources, AcceptedSource source) :
    validateItems (some (.array (sources.zipIdx.map (fun p => migrateSource p.1 p.2)))) "$.evidence"
        "evidenceId" V2Document.validateEvidence = [] ↔
      ∀ source ∈ sources, HasOnly (source.field "version") ["scheme", "token"] ∧
        HasOnly (source.field "validator") ["id", "operation"] := by
  have hget : ∀ i, (sources.zipIdx.map (fun p => migrateSource p.1 p.2))[i]?
      = sources[i]?.map (fun source => migrateSource source i) := by
    intro i
    rw [List.getElem?_map, List.getElem?_zipIdx, Option.map_map]
    simp only [Function.comp_def, Nat.zero_add]
  have hidOf : ∀ source ∈ sources, ∀ i, idOf "evidenceId" (migrateSource source i)
      = some ("v1:" ++ toString (i + 1)) := by
    intro source hsource i
    have hcarries := carries_migrateSource (h source hsource) i
    unfold idOf
    rw [hcarries.identity]
    refine if_pos (V1.isNonEmptyString_iff.mpr ?_)
    intro hempty
    have hlist := congrArg String.toList hempty
    rw [String.toList_append] at hlist
    exact absurd (List.append_eq_nil_iff.mp hlist).1 (by decide)
  rw [validateItems_eq_nil]
  constructor
  · intro hall source hsource
    obtain ⟨i, hi⟩ := List.getElem?_of_mem hsource
    have hitem := hall i (migrateSource source i) (by rw [hget, hi]; rfl)
    exact (validateEvidence_eq_nil (h source hsource) i _).mp hitem.1
  · intro hall i item hitem
    rw [hget, Option.map_eq_some_iff] at hitem
    obtain ⟨source, hsource, rfl⟩ := hitem
    have hmem := List.mem_of_getElem? hsource
    refine ⟨(validateEvidence_eq_nil (h source hmem) i _).mpr (hall source hmem), ?_⟩
    intro id hid hin
    rw [hidOf source hmem i] at hid
    cases hid
    obtain ⟨other, hother, hsame⟩ := List.mem_filterMap.mp hin
    obtain ⟨j, hj⟩ := List.getElem?_of_mem hother
    rw [List.getElem?_take] at hj
    split_ifs at hj with hlt
    rw [hget, Option.map_eq_some_iff] at hj
    obtain ⟨source', hsource', rfl⟩ := hj
    rw [hidOf source' (List.mem_of_getElem? hsource') j] at hsame
    exact hlt.ne (Nat.succ.inj (append_toString_injective (Option.some.inj hsame)))

/-! ## Envelopes -/

/-- The fields of an accepted `validity`. -/
structure AcceptedValidity (validity : Option Json) : Prop where
  status : isText (fun s => V1Document.statuses.contains s) (fieldOf validity "status") = true
  checkedAt : isText isDateTime (fieldOf validity "checkedAt") = true
  policy : isText (fun s => V1Document.policies.contains s) (fieldOf validity "policy") = true
  ttl : isTheText "TTL" (fieldOf validity "policy") = true →
    isText isDateTime (fieldOf validity "expiresAt") = true
  other : isTheText "TTL" (fieldOf validity "policy") = false → fieldOf validity "expiresAt" = none

/-- A document that the old version accepts. -/
structure AcceptedEnvelope (input : Json) : Prop where
  memoryId : isText isNonEmptyString (input.field "memoryId") = true
  contentDigest : has input "contentDigest" = true →
    isText isDigest (input.field "contentDigest") = true
  sources : ∀ source ∈ (itemsOf (input.field "provenance")).getD [], AcceptedSource source
  validity : AcceptedValidity (input.field "validity")
  dependsOn : ∃ ids, idsOf (input.field "dependsOn") = some ids ∧ duplicated ids = false
  nonEmpty : countOf (input.field "provenance") ≠ 0 ∨ countOf (input.field "dependsOn") ≠ 0

theorem acceptedValidity_of_valid (h : V1Document.validateValidity value path = []) : AcceptedValidity value := by
  unfold V1Document.validateValidity at h
  split_ifs at h with hrecord
  simp only [List.append_eq_nil_iff, V1.addIf_eq_nil, Bool.not_eq_false', Bool.and_eq_false_iff] at h
  obtain ⟨⟨⟨⟨hstatus, hchecked⟩, hpolicy⟩, httl⟩, hother⟩ := h
  refine ⟨hstatus, hchecked, hpolicy, fun heq => ?_, fun hne => ?_⟩
  · rcases httl with hfalse | hexpires
    · rw [heq] at hfalse
      cases hfalse
    · exact hexpires
  · rcases hother with htrue | hnone
    · rw [hne] at htrue
      cases htrue
    · rw [Option.isSome_eq_false_iff, Option.isNone_iff_eq_none] at hnone
      exact hnone

theorem acceptedSources_of_valid {input : Json} (h : validateProvenance input = []) :
    ∀ source ∈ (itemsOf (input.field "provenance")).getD [], AcceptedSource source := by
  intro source hsource
  unfold validateProvenance at h
  split at h
  case h_1 hfield =>
    rw [hfield] at hsource
    cases hsource
  case h_2 sources hfield =>
    rw [hfield] at hsource
    obtain ⟨i, hi⟩ := List.getElem?_of_mem hsource
    rw [List.append_eq_nil_iff, List.flatMap_eq_nil_iff] at h
    have hvalid := h.2 ⟨"$.provenance" ++ "[" ++ toString i ++ "]", source⟩ (by
      unfold indexed
      exact List.mem_map.mpr ⟨(source, i), List.mk_mem_zipIdx_iff_getElem?.mpr hi, rfl⟩)
    exact acceptedSource_of_valid (List.append_eq_nil_iff.mp hvalid).1
  case h_3 => cases h

theorem acceptedEnvelope_of_valid {input : Json} (h : V1Document.validateMemoryEnvelope input = []) :
    AcceptedEnvelope input := by
  cases input with
  | object fields =>
    unfold V1Document.validateMemoryEnvelope at h
    simp only [List.append_eq_nil_iff, V1.addIf_eq_nil, Bool.not_eq_false', Bool.and_eq_false_iff,
      decide_eq_false_iff_not, not_and_or] at h
    obtain ⟨⟨⟨⟨⟨⟨⟨⟨-, -⟩, hmemory⟩, hdigest⟩, hprovenance⟩, hvalidity⟩, hdepends⟩, hcount⟩, -⟩ := h
    refine ⟨hmemory, fun hhas => ?_, acceptedSources_of_valid hprovenance, acceptedValidity_of_valid hvalidity, ?_, hcount⟩
    · rcases hdigest with hnone | hdigest
      · rw [hhas] at hnone
        cases hnone
      · exact hdigest
    · split at hdepends
      case h_1 => cases hdepends
      case h_2 ids hids => exact ⟨ids, hids, V1.addIf_eq_nil.mp hdepends⟩
  | null | boolean | number | string | array => cases h

section Migrated

variable {input : Json} {options : V1MigrationOptions}

def migratedAtOf (input : Json) (options : V1MigrationOptions) : Json :=
  (options.migratedAt.map Json.string).getD (valueOf (input.field "validity") "checkedAt")

def migratedRest (input : Json) (options : V1MigrationOptions) : List (String × Json) :=
  [("evidence", .array (((itemsOf (input.field "provenance")).getD []).zipIdx.map
      (fun p => migrateSource p.1 p.2))),
    ("confidence", .object [("score", .null), ("method", .string "v1-migration"),
      ("assessedAt", migratedAtOf input options)]),
    ("conflicts", .array []),
    ("temporal", .object ([("asOf", migratedAtOf input options)]
      ++ Json.optional "validUntil" (fieldOf (input.field "validity") "expiresAt"))),
    ("validity", .object ([("status", valueOf (input.field "validity") "status"),
        ("checkedAt", valueOf (input.field "validity") "checkedAt"),
        ("policy", valueOf (input.field "validity") "policy")]
      ++ Json.optional "expiresAt" (fieldOf (input.field "validity") "expiresAt"))),
    ("dependsOn", .array ((itemsOf (input.field "dependsOn")).getD [])),
    ("signatures", .array [])]

theorem migrated_eq (input : Json) (options : V1MigrationOptions) : migrated input options =
    .object (("specVersion", .string "premise/2") :: ("tenantId", .string options.tenantId) ::
      ("memoryId", valueOf (some input) "memoryId") ::
      (Json.optional "contentDigest" (input.field "contentDigest") ++ migratedRest input options)) := rfl

theorem field_migrated (h : key ∉ ["specVersion", "tenantId", "memoryId", "contentDigest"]) :
    (migrated input options).field key = (Json.object (migratedRest input options)).field key := by
  simp only [List.mem_cons, List.not_mem_nil, or_false, not_or] at h
  rw [migrated_eq, field_cons_of_ne (Ne.symm h.1), field_cons_of_ne (Ne.symm h.2.1),
    field_cons_of_ne (Ne.symm h.2.2.1), field_optional_of_ne (Ne.symm h.2.2.2)]

theorem contentDigest_migrated :
    (migrated input options).field "contentDigest" = input.field "contentDigest" := by
  rw [migrated_eq, field_cons_of_ne (by decide), field_cons_of_ne (by decide), field_cons_of_ne (by decide)]
  exact field_optional_self _ rfl

theorem memoryId_migrated (h : AcceptedEnvelope input) :
    (migrated input options).field "memoryId" = input.field "memoryId" := by
  obtain ⟨memoryId, hmemory, -⟩ := isText_iff.mp h.memoryId
  rw [migrated_eq, field_cons_of_ne (by decide), field_cons_of_ne (by decide), field_cons_self,
    valueOf_of_some hmemory, hmemory]

theorem evidence_migrated : (migrated input options).field "evidence" = some (.array
    (((itemsOf (input.field "provenance")).getD []).zipIdx.map (fun p => migrateSource p.1 p.2))) :=
  (field_migrated (by decide)).trans rfl

theorem dependsOn_migrated (h : AcceptedEnvelope input) :
    (migrated input options).field "dependsOn" = input.field "dependsOn" := by
  obtain ⟨ids, hids, -⟩ := h.dependsOn
  unfold idsOf at hids
  obtain ⟨items, hitems, -⟩ := Option.bind_eq_some_iff.mp hids
  have hfield : (migrated input options).field "dependsOn"
      = some (.array ((itemsOf (input.field "dependsOn")).getD [])) := (field_migrated (by decide)).trans rfl
  rw [hfield, hitems, itemsOf_eq_some.mp hitems]
  rfl

theorem keeps_migrated (h : AcceptedEnvelope input) : Keeps input (migrated input options) where
  memoryId := memoryId_migrated h
  dependsOn := dependsOn_migrated h
  status := by
    obtain ⟨status, hstatus, -⟩ := isText_iff.mp h.validity.status
    rw [hstatus, field_migrated (by decide)]
    show some (valueOf (input.field "validity") "status") = _
    unfold valueOf
    rw [hstatus]
    rfl
  evidence := by
    refine ⟨_, itemsOf_eq_some.mpr evidence_migrated, by simp, ?_⟩
    intro i source item hsource hitem
    rw [List.getElem?_map, List.getElem?_zipIdx, hsource] at hitem
    cases hitem
    rw [Nat.zero_add]
    exact carries_migrateSource (h.sources source (List.mem_of_getElem? hsource)) i

theorem AcceptedValidity.expiresAt {validity : Option Json} (h : AcceptedValidity validity)
    (hsome : (fieldOf validity "expiresAt").isSome = true) :
    isText isDateTime (fieldOf validity "expiresAt") = true := by
  cases httl : isTheText "TTL" (fieldOf validity "policy") with
  | true => exact h.ttl httl
  | false =>
    rw [h.other httl] at hsome
    cases hsome

section

variable (h : AcceptedEnvelope input) (hoptions : options.issues = [])
include h hoptions

theorem isDateTime_migratedAt : isText isDateTime (some (migratedAtOf input options)) = true := by
  unfold V1MigrationOptions.issues at hoptions
  rw [List.append_eq_nil_iff, flag_eq_nil, flag_eq_nil] at hoptions
  unfold migratedAtOf
  cases hat : options.migratedAt with
  | none =>
    obtain ⟨checkedAt, hchecked, hdate⟩ := isText_iff.mp h.validity.checkedAt
    unfold valueOf
    rw [hchecked]
    exact hdate
  | some migratedAt =>
    rw [hat] at hoptions
    have hdate : isDateTime migratedAt = true := by simpa using hoptions.2
    exact hdate

theorem validateConfidence_migrated :
    V2Document.validateConfidence ((migrated input options).field "confidence") "$.confidence" = [] := by
  have hfield : (migrated input options).field "confidence" = some (.object [("score", .null),
      ("method", .string "v1-migration"), ("assessedAt", migratedAtOf input options)]) :=
    (field_migrated (by decide)).trans rfl
  have hdate := isDateTime_migratedAt h hoptions
  rw [hfield]
  show flag (!isText isDateTime (some (migratedAtOf input options))) _ _ ++ [] = []
  rw [hdate]
  rfl

theorem validateTemporal_migrated :
    V2Document.validateTemporal ((migrated input options).field "temporal") "$.temporal" = [] := by
  have hfield : (migrated input options).field "temporal" = some (.object
      (("asOf", migratedAtOf input options) ::
        Json.optional "validUntil" (fieldOf (input.field "validity") "expiresAt"))) :=
    (field_migrated (by decide)).trans rfl
  have hdate := isDateTime_migratedAt h hoptions
  rw [hfield]
  cases hexpires : fieldOf (input.field "validity") "expiresAt" with
  | none =>
    show flag (!isText isDateTime (some (migratedAtOf input options))) _ _ ++ [] = []
    rw [hdate]
    rfl
  | some expiresAt =>
    have huntil := h.validity.expiresAt (by rw [hexpires]; rfl)
    rw [hexpires] at huntil
    show flag (!isText isDateTime (some (migratedAtOf input options))) _ _
      ++ (flag (!isText isDateTime (some expiresAt)) _ _ ++ []) = []
    rw [hdate, huntil]
    rfl

end

theorem validateValidity_migrated (h : AcceptedEnvelope input) :
    V2Document.validateValidity ((migrated input options).field "validity") "$.validity" = [] := by
  obtain ⟨status, hstatus, hknown⟩ := isText_iff.mp h.validity.status
  obtain ⟨checkedAt, hchecked, hdate⟩ := isText_iff.mp h.validity.checkedAt
  obtain ⟨policy, hpolicy, hlisted⟩ := isText_iff.mp h.validity.policy
  have hfield : (migrated input options).field "validity" = some (.object
      (("status", .string status) :: ("checkedAt", .string checkedAt) :: ("policy", .string policy) ::
        Json.optional "expiresAt" (fieldOf (input.field "validity") "expiresAt"))) := by
    rw [field_migrated (by decide)]
    show some (Json.object (("status", valueOf (input.field "validity") "status") ::
      ("checkedAt", valueOf (input.field "validity") "checkedAt") ::
      ("policy", valueOf (input.field "validity") "policy") :: _)) = _
    unfold valueOf
    rw [hstatus, hchecked, hpolicy]
    rfl
  have httl := h.validity.ttl
  have hother := h.validity.other
  rw [hpolicy] at httl hother
  rw [hfield]
  have hchecks : flag (!V1Document.statuses.contains status) "$.validity.status"
        "must be a PREMiSE v2 memory status" = [] ∧
      flag (!isDateTime checkedAt) "$.validity.checkedAt" "must be an ISO date-time string" = [] ∧
      flag (!V1Document.policies.contains policy) "$.validity.policy"
        "must be a PREMiSE validity policy" = [] := by
    rw [flag_eq_nil, flag_eq_nil, flag_eq_nil, hknown, hdate, hlisted]
    exact ⟨rfl, rfl, rfl⟩
  obtain ⟨hone, htwo, hthree⟩ := hchecks
  cases hexpires : fieldOf (input.field "validity") "expiresAt" with
  | none =>
    rw [hexpires] at httl hother
    have hnot : isTheText "TTL" (some (.string policy)) = false := by
      cases hkind : isTheText "TTL" (some (.string policy)) with
      | true => cases httl hkind
      | false => rfl
    show [] ++ flag _ _ _ ++ flag _ _ _ ++ flag _ _ _
      ++ flag (isTheText "TTL" (some (.string policy)) && _) _ _
      ++ flag (!isTheText "TTL" (some (.string policy)) && false) _ _ = []
    rw [hnot]
    simp only [List.append_eq_nil_iff]
    exact ⟨⟨⟨⟨⟨trivial, hone⟩, htwo⟩, hthree⟩, rfl⟩, rfl⟩
  | some expiresAt =>
    rw [hexpires] at httl hother
    have hkind : isTheText "TTL" (some (.string policy)) = true := by
      cases hkind : isTheText "TTL" (some (.string policy)) with
      | true => rfl
      | false => cases hother hkind
    have huntil := httl hkind
    show [] ++ flag _ _ _ ++ flag _ _ _ ++ flag _ _ _
      ++ flag (isTheText "TTL" (some (.string policy)) && !isText isDateTime (some expiresAt)) _ _
      ++ flag (!isTheText "TTL" (some (.string policy)) && true) _ _ = []
    rw [hkind, huntil]
    simp only [List.append_eq_nil_iff]
    exact ⟨⟨⟨⟨⟨trivial, hone⟩, htwo⟩, hthree⟩, rfl⟩, rfl⟩

theorem rejectUnknown_migrated :
    V2Document.rejectUnknown (migrated input options) "$" V2Document.envelopeFields = [] := by
  rw [migrated_eq, rejectUnknown_eq_nil]
  intro p hp
  simp only [List.mem_cons, List.mem_append] at hp
  rcases hp with rfl | rfl | rfl | hp | hp
  · simp [V2Document.envelopeFields]
  · simp [V2Document.envelopeFields]
  · simp [V2Document.envelopeFields]
  · unfold Json.optional at hp
    obtain ⟨value, -, rfl⟩ := List.mem_map.mp hp
    simp [V2Document.envelopeFields]
  · unfold migratedRest at hp
    simp only [List.mem_cons, List.not_mem_nil, or_false] at hp
    rcases hp with rfl | rfl | rfl | rfl | rfl | rfl | rfl <;> simp [V2Document.envelopeFields]

theorem nonEmpty_migrated (h : AcceptedEnvelope input) :
    (((itemsOf ((migrated input options).field "evidence")).getD []).isEmpty
      && ((idsOf ((migrated input options).field "dependsOn")).getD []).isEmpty) = false := by
  rw [evidence_migrated, dependsOn_migrated h, Bool.and_eq_false_iff]
  rcases h.nonEmpty with hsources | hdepends
  · refine .inl ?_
    unfold countOf at hsources
    cases hitems : (itemsOf (input.field "provenance")).getD [] with
    | nil =>
      rw [hitems] at hsources
      exact absurd rfl hsources
    | cons source sources => rfl
  · refine .inr ?_
    obtain ⟨ids, hids, -⟩ := h.dependsOn
    rw [hids]
    unfold idsOf at hids
    obtain ⟨items, hitems, hmap⟩ := Option.bind_eq_some_iff.mp hids
    unfold countOf at hdepends
    rw [hitems] at hdepends
    cases items with
    | nil => exact absurd rfl hdepends
    | cons item items =>
      rw [List.mapM_cons] at hmap
      obtain ⟨id, -, hmap⟩ := Option.bind_eq_some_iff.mp hmap
      obtain ⟨rest, -, hmap⟩ := Option.bind_eq_some_iff.mp hmap
      cases hmap
      rfl

theorem validate_migrated (h : AcceptedEnvelope input) (hoptions : options.issues = []) :
    V2Document.validateMemoryEnvelopeV2 (migrated input options) = [] ↔ PlainReferences input := by
  have htenant : isTenantId options.tenantId = true := by
    unfold V1MigrationOptions.issues at hoptions
    rw [List.append_eq_nil_iff, flag_eq_nil, Bool.not_eq_false'] at hoptions
    exact hoptions.1
  have hspec : (migrated input options).field "specVersion" = some (.string "premise/2") := rfl
  have htenantField : (migrated input options).field "tenantId" = some (.string options.tenantId) := rfl
  have hconflicts : (migrated input options).field "conflicts" = some (.array []) :=
    (field_migrated (by decide)).trans rfl
  have hsignatures : (migrated input options).field "signatures" = some (.array []) :=
    (field_migrated (by decide)).trans rfl
  obtain ⟨ids, hids, hunique⟩ := h.dependsOn
  have hdigest : allowText isDigest (migrated input options) "$" "contentDigest"
      "must use the sha256: digest prefix and a non-empty digest" = [] := by
    unfold allowText requireText has
    rw [contentDigest_migrated]
    split_ifs with hhas
    · rw [h.contentDigest hhas]
      rfl
    · rfl
  have hitems := validateItems_evidence h.sources
  unfold PlainReferences
  rw [← hitems, ← evidence_migrated]
  unfold V2Document.validateMemoryEnvelopeV2
  rw [migrated_eq]
  unfold ofRecord
  dsimp only
  rw [← migrated_eq, rejectUnknown_migrated, hdigest, validateConfidence_migrated h hoptions,
    validateTemporal_migrated h hoptions, validateValidity_migrated h, hconflicts, hsignatures,
    validateItems_nil, validateItems_nil, nonEmpty_migrated h]
  unfold requireText
  rw [hspec, htenantField, memoryId_migrated h, h.memoryId, dependsOn_migrated h, hids]
  dsimp only
  rw [hunique]
  simp [flag, isText, itemsOf, htenant]

end Migrated

/-- A document of the old version is migrated if and only if its versions and validators have no other
    fields. -/
theorem migration_total_iff (input : Json) (options : V1MigrationOptions)
    (h : V1Document.validateMemoryEnvelope input = []) (hoptions : options.issues = []) :
    Migrates input options ↔ PlainReferences input := by
  have haccepted := acceptedEnvelope_of_valid h
  rw [← @validate_migrated input options haccepted hoptions]
  unfold Migrates migrateV1Envelope
  rw [if_neg (not_not.mpr hoptions), if_neg (not_not.mpr h)]
  constructor
  · rintro ⟨envelope, hmigrate, -⟩
    split_ifs at hmigrate with hissues
    exact not_not.mp hissues
  · intro hvalid
    rw [if_neg (not_not.mpr hvalid)]
    exact ⟨_, rfl, hvalid, keeps_migrated haccepted⟩

/-- A document whose only source has a version with the given fields. -/
def versionedDocument (version : List (String × Json)) : Json :=
  .object [("specVersion", .string "premise/0.1"), ("memoryId", .string "a"),
    ("provenance", .array [.object [("sourceUri", .string "file:a"),
      ("observedAt", .string "2026-01-01T00:00:00Z"), ("version", .object version),
      ("validator", .object [("id", .string "file"), ("operation", .string "hash")])]]),
    ("validity", .object [("status", .string "FRESH"), ("checkedAt", .string "2026-01-01T00:00:00Z"),
      ("policy", .string "VERSIONED")]),
    ("dependsOn", .array [])]

theorem migration_total_iff_versioned :
    Migrates (versionedDocument [("scheme", .string "etag"), ("token", .string "1")]) ⟨"tenant", none⟩ := by
  refine (migration_total_iff _ _ (by decide +kernel) (by decide +kernel)).mpr ?_
  intro source hsource
  obtain rfl := List.mem_singleton.mp hsource
  refine ⟨fun fields heq => ?_, fun fields heq => ?_⟩
  · obtain rfl := Json.object.inj (Option.some.inj heq)
    simp
  · obtain rfl := Json.object.inj (Option.some.inj heq)
    simp

/-- The old version accepts a version with another field, and the new one refuses it. -/
theorem version_with_note_is_not_migrated : ∃ input options,
    V1Document.validateMemoryEnvelope input = [] ∧ V1MigrationOptions.issues options = [] ∧
      ¬ Migrates input options := by
  refine ⟨versionedDocument [("scheme", .string "etag"), ("token", .string "1"), ("note", .string "n")],
    ⟨"tenant", none⟩, by decide +kernel, by decide +kernel, ?_⟩
  rintro ⟨envelope, hmigrate, -⟩
  have hrefused : (migrateV1Envelope (versionedDocument
      [("scheme", .string "etag"), ("token", .string "1"), ("note", .string "n")])
      ⟨"tenant", none⟩).toOption.isSome = false := by decide +kernel
  rw [hmigrate] at hrefused
  cases hrefused

end Premise.Protocol
