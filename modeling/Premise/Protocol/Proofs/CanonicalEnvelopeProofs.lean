import Premise.Protocol.Proofs.MigrationProofs

/-!
# Proofs: the text that is signed

The canonical text of a document is the text of the document in key order. What the validation reads of a document
does not depend on the order of its keys, so a reordering of a valid envelope is valid and has the same text.
-/

namespace Premise.Protocol.V2Document

open Collections Js

mutual

theorem canonicalFragment_eq (v : Json) : canonicalFragment v = v.sorted.stringify :=
  match v with
  | .null | .boolean _ | .number _ | .string _ => rfl
  | .array items => by
    rw [canonicalFragment, Json.sorted, Json.stringify, Json.joinItems_eq, canonicalItems_eq items]
  | .object fields => by
    rw [canonicalFragment, Json.sorted, Json.stringify, Json.joinFields_eq, canonicalFields_eq fields, sortByKey_map,
      List.map_map]
    rfl

theorem canonicalItems_eq (items : List Json) : canonicalItems items = (Json.sortedItems items).map Json.stringify :=
  match items with
  | [] => rfl
  | v :: items => by rw [canonicalItems, Json.sortedItems, List.map_cons, canonicalFragment_eq v, canonicalItems_eq items]

theorem canonicalFields_eq (fields : List (String × Json)) :
    canonicalFields fields = (Json.sortedFields fields).map (fun p => (p.1, p.2.stringify)) :=
  match fields with
  | [] => rfl
  | (k, v) :: fields => by
    rw [canonicalFields, Json.sortedFields, List.map_cons, canonicalFragment_eq v, canonicalFields_eq fields]

end

example : canonicalFragment (.object [("b", .null), ("a", .array [.boolean true, .string "\n"])])
    = "\x7b\"a\":[true,\"\\n\"],\"b\":null\x7d".toList := by decide +kernel

/-! ## What a validation reads -/

section Reading

variable {v : Json} {value : Option Json}

theorem isText_sorted (p : String → Bool) (value : Option Json) : isText p (value.map Json.sorted) = isText p value := by
  obtain _ | v := value
  · rfl
  · cases v <;> rfl

theorem isScore_sorted (value : Option Json) : isScore (value.map Json.sorted) = isScore value := by
  obtain _ | v := value
  · rfl
  · cases v <;> rfl

theorem instantOf_sorted (value : Option Json) : instantOf (value.map Json.sorted) = instantOf value := by
  obtain _ | v := value
  · rfl
  · cases v <;> rfl

theorem itemsOf_sorted (value : Option Json) :
    itemsOf (value.map Json.sorted) = (itemsOf value).map (List.map Json.sorted) := by
  obtain _ | v := value
  · rfl
  · cases v with
    | array items => rw [Option.map_some, Json.sorted, Json.sortedItems_eq]; rfl
    | _ => rfl

theorem idsOf_sorted (value : Option Json) : idsOf (value.map Json.sorted) = idsOf value := by
  unfold idsOf
  rw [itemsOf_sorted]
  cases itemsOf value with
  | none => rfl
  | some items =>
    rw [Option.map_some, Option.bind_some, Option.bind_some, List.mapM_map]
    refine congrArg (fun f => items.mapM f) (funext fun item => ?_)
    cases item <;> rfl

theorem has_sorted (h : v.WellFormed) (key : String) : has v.sorted key = has v key := by
  unfold has
  rw [Json.field_sorted h, Option.isSome_map]

theorem idOf_sorted (h : v.WellFormed) (key : String) : idOf key v.sorted = idOf key v := by
  unfold idOf
  rw [Json.field_sorted h]
  cases v.field key with
  | none => rfl
  | some value => cases value <;> rfl

theorem requireText_sorted (h : v.WellFormed) (p : String → Bool) (path key message : String) :
    requireText p v.sorted path key message = requireText p v path key message := by
  unfold requireText
  rw [Json.field_sorted h, isText_sorted]

theorem allowText_sorted (h : v.WellFormed) (p : String → Bool) (path key message : String) :
    allowText p v.sorted path key message = allowText p v path key message := by
  unfold allowText
  rw [has_sorted h, requireText_sorted h]

theorem validateWindow_sorted (h : v.WellFormed) (path : String) :
    validateWindow v.sorted path = validateWindow v path := by
  unfold validateWindow
  rw [allowText_sorted h, allowText_sorted h, Json.field_sorted h, Json.field_sorted h, instantOf_sorted, instantOf_sorted]

theorem validateReference_sorted (h : v.WellFormed) (path key : String) (ids : List String) (message : String) :
    validateReference v.sorted path key ids message = validateReference v path key ids message := by
  unfold validateReference
  rw [Json.field_sorted h]
  cases v.field key with
  | none => rfl
  | some value => cases value <;> rfl

theorem rejectUnknown_sorted (v : Json) (path : String) (allowed : List String) :
    rejectUnknown v.sorted path allowed = [] ↔ rejectUnknown v path allowed = [] := by
  cases v with
  | object fields =>
    rw [Json.sorted, rejectUnknown_eq_nil, rejectUnknown_eq_nil]
    have hperm := sortByKey_perm (Json.sortedFields fields)
    rw [Json.sortedFields_eq] at hperm ⊢
    constructor
    · intro h p hp
      exact h (p.1, p.2.sorted) (hperm.mem_iff.mpr (List.mem_map_of_mem (f := fun p => (p.1, p.2.sorted)) hp))
    · intro h p hp
      obtain ⟨q, hq, rfl⟩ := List.mem_map.mp (hperm.mem_iff.mp hp)
      exact h q hq
  | _ => exact Iff.rfl

theorem ofRecord_sorted (h : ∀ v ∈ value, v.WellFormed) (path : String) {check : Json → List V2ValidationIssue}
    (hcheck : ∀ v : Json, v.WellFormed → (check v.sorted = [] ↔ check v = [])) :
    ofRecord (value.map Json.sorted) path check = [] ↔ ofRecord value path check = [] := by
  obtain _ | v := value
  · exact Iff.rfl
  · cases v with
    | object fields => exact hcheck (.object fields) (h _ rfl)
    | _ => exact Iff.rfl

theorem ofRecord_some_sorted (hv : v.WellFormed) (path : String) {check : Json → List V2ValidationIssue}
    (hcheck : ∀ v : Json, v.WellFormed → (check v.sorted = [] ↔ check v = [])) :
    ofRecord (some v.sorted) path check = [] ↔ ofRecord (some v) path check = [] :=
  ofRecord_sorted (fun _ hu => Option.some.inj hu ▸ hv) path hcheck

theorem wellFormed_fields (h : v.WellFormed) (key : String) : ∀ u ∈ v.field key, u.WellFormed :=
  fun _ hu => Json.wellFormed_field h hu

theorem wellFormed_items (h : ∀ v ∈ value, v.WellFormed) {items : List Json} (hitems : itemsOf value = some items) :
    ∀ v ∈ items, v.WellFormed := by
  rw [itemsOf_eq_some] at hitems
  have hwell := h (.array items) hitems
  rw [Json.WellFormed, Json.wellFormedItems_iff] at hwell
  exact hwell

end Reading

/-! ## The validation of a document in key order -/

section Validation

variable {v : Json} {value : Option Json}

section

variable (h : ∀ v ∈ value, v.WellFormed) (path : String)
include h path

theorem validateVersion_sorted : validateVersion (value.map Json.sorted) path = [] ↔ validateVersion value path = [] := by
  refine ofRecord_sorted h path fun v hv => ?_
  simp only [List.append_eq_nil_iff, rejectUnknown_sorted, requireText_sorted hv]

theorem validateValidator_sorted :
    validateValidator (value.map Json.sorted) path = [] ↔ validateValidator value path = [] := by
  refine ofRecord_sorted h path fun v hv => ?_
  simp only [List.append_eq_nil_iff, rejectUnknown_sorted, requireText_sorted hv]

theorem validateConfidence_sorted :
    validateConfidence (value.map Json.sorted) path = [] ↔ validateConfidence value path = [] := by
  refine ofRecord_sorted h path fun v hv => ?_
  simp only [List.append_eq_nil_iff, rejectUnknown_sorted, requireText_sorted hv, allowText_sorted hv,
    Json.field_sorted hv, isScore_sorted]

theorem validateTemporal_sorted :
    validateTemporal (value.map Json.sorted) path = [] ↔ validateTemporal value path = [] := by
  refine ofRecord_sorted h path fun v hv => ?_
  simp only [List.append_eq_nil_iff, rejectUnknown_sorted, requireText_sorted hv, validateWindow_sorted hv]

theorem validateValidity_sorted :
    validateValidity (value.map Json.sorted) path = [] ↔ validateValidity value path = [] := by
  refine ofRecord_sorted h path fun v hv => ?_
  simp only [List.append_eq_nil_iff, rejectUnknown_sorted, requireText_sorted hv, has_sorted hv, Json.field_sorted hv,
    isTheText, isText_sorted]

theorem validateResolution_sorted (ids : List String) :
    validateResolution (value.map Json.sorted) path ids = [] ↔ validateResolution value path ids = [] := by
  refine ofRecord_sorted h path fun v hv => ?_
  simp only [List.append_eq_nil_iff, rejectUnknown_sorted, requireText_sorted hv, allowText_sorted hv,
    validateReference_sorted hv]

end

theorem part_sorted (hv : v.WellFormed) (key path : String) (check : Option Json → String → List V2ValidationIssue)
    (hcheck : ∀ {value : Option Json}, (∀ v ∈ value, v.WellFormed) → ∀ path,
      (check (value.map Json.sorted) path = [] ↔ check value path = [])) :
    (if has v.sorted key then check (v.sorted.field key) path else []) = [] ↔
      (if has v key then check (v.field key) path else []) = [] := by
  rw [has_sorted hv, Json.field_sorted hv]
  by_cases hhas : has v key = true
  · rw [if_pos hhas, if_pos hhas]
    exact hcheck (wellFormed_fields hv key) path
  · rw [if_neg hhas, if_neg hhas]

theorem validateEvidence_sorted (hv : v.WellFormed) (path : String) :
    validateEvidence v.sorted path = [] ↔ validateEvidence v path = [] := by
  refine ofRecord_some_sorted hv path fun v hv => ?_
  simp only [List.append_eq_nil_iff, rejectUnknown_sorted, requireText_sorted hv, allowText_sorted hv,
    validateWindow_sorted hv, part_sorted hv "version" _ validateVersion validateVersion_sorted,
    part_sorted hv "validator" _ validateValidator validateValidator_sorted,
    part_sorted hv "confidence" _ validateConfidence validateConfidence_sorted]
  rw [has_sorted hv, has_sorted hv]

theorem conflictIdsOf_sorted (hv : v.WellFormed) : conflictIdsOf v.sorted = conflictIdsOf v := by
  unfold conflictIdsOf
  rw [Json.field_sorted hv, idsOf_sorted]

theorem validateConflict_sorted (hv : v.WellFormed) (path : String) (evidenceIds : List String) :
    validateConflict v.sorted path evidenceIds = [] ↔ validateConflict v path evidenceIds = [] := by
  refine ofRecord_some_sorted hv path fun v hv => ?_
  have hpart := part_sorted hv "resolution" (path ++ ".resolution")
    (fun value path => validateResolution value path ((conflictIdsOf v).getD []))
    (fun h path => validateResolution_sorted h path _)
  simp only [List.append_eq_nil_iff, rejectUnknown_sorted, requireText_sorted hv, conflictIdsOf_sorted hv, hpart]
  simp only [has_sorted hv, Json.field_sorted hv, isTheText, isText_sorted]

theorem validateSignature_sorted (hv : v.WellFormed) (path : String) (evidenceIds : List String) :
    validateSignature v.sorted path evidenceIds = [] ↔ validateSignature v path evidenceIds = [] := by
  refine ofRecord_some_sorted hv path fun v hv => ?_
  simp only [List.append_eq_nil_iff, rejectUnknown_sorted, requireText_sorted hv, validateReference_sorted hv]

theorem filterMap_idOf_sorted (key : String) {items : List Json} (h : ∀ v ∈ items, v.WellFormed) :
    (items.map Json.sorted).filterMap (idOf key) = items.filterMap (idOf key) := by
  rw [List.filterMap_map]
  exact List.filterMap_congr fun v hv => idOf_sorted (h v hv) key

theorem validateItems_sorted (h : ∀ v ∈ value, v.WellFormed) (path key : String)
    {check : Json → String → List V2ValidationIssue}
    (hcheck : ∀ v : Json, v.WellFormed → ∀ path, (check v.sorted path = [] ↔ check v path = [])) :
    validateItems (value.map Json.sorted) path key check = [] ↔ validateItems value path key check = [] := by
  cases hitems : itemsOf value with
  | none =>
    unfold validateItems
    rw [itemsOf_sorted, hitems]
    exact Iff.rfl
  | some items =>
    have hwell := wellFormed_items h hitems
    obtain rfl := itemsOf_eq_some.mp hitems
    rw [Option.map_some, Json.sorted, Json.sortedItems_eq, validateItems_eq_nil, validateItems_eq_nil]
    have hmem : ∀ {i item}, items[i]? = some item → item ∈ items := fun hi => List.mem_of_getElem? hi
    have htake : ∀ i, ((items.map Json.sorted).take i).filterMap (idOf key) = (items.take i).filterMap (idOf key) := by
      intro i
      rw [← List.map_take]
      exact filterMap_idOf_sorted key fun v hv => hwell v (List.mem_of_mem_take hv)
    constructor
    · intro hall i item hi
      have hitem := hall i item.sorted (by rw [List.getElem?_map, hi]; rfl)
      rw [hcheck item (hwell item (hmem hi)), idOf_sorted (hwell item (hmem hi)), htake] at hitem
      exact hitem
    · intro hall i sortedItem hi
      rw [List.getElem?_map, Option.map_eq_some_iff] at hi
      obtain ⟨item, hi, rfl⟩ := hi
      rw [hcheck item (hwell item (hmem hi)), idOf_sorted (hwell item (hmem hi)), htake]
      exact hall i item hi

theorem evidenceIds_sorted (hv : v.WellFormed) :
    ((itemsOf (v.sorted.field "evidence")).getD []).filterMap (idOf "evidenceId")
      = ((itemsOf (v.field "evidence")).getD []).filterMap (idOf "evidenceId") := by
  rw [Json.field_sorted hv, itemsOf_sorted]
  cases hitems : itemsOf (v.field "evidence") with
  | none => rfl
  | some items => exact filterMap_idOf_sorted _ (wellFormed_items (wellFormed_fields hv _) hitems)

theorem anyOpen_sorted (hv : v.WellFormed) :
    ((itemsOf (v.sorted.field "conflicts")).getD []).any (fun conflict => isTheText "OPEN" (conflict.field "status"))
      = ((itemsOf (v.field "conflicts")).getD []).any
        (fun conflict => isTheText "OPEN" (conflict.field "status")) := by
  rw [Json.field_sorted hv, itemsOf_sorted]
  cases hitems : itemsOf (v.field "conflicts") with
  | none => rfl
  | some items =>
    have hstatus : ∀ conflict ∈ items, isTheText "OPEN" (conflict.sorted.field "status")
        = isTheText "OPEN" (conflict.field "status") := by
      intro conflict hconflict
      rw [Json.field_sorted (wellFormed_items (wellFormed_fields hv _) hitems conflict hconflict)]
      exact isText_sorted _ _
    rw [Option.map_some, Option.getD_some, Option.getD_some, List.any_map, Bool.eq_iff_iff, List.any_eq_true,
      List.any_eq_true]
    refine exists_congr fun conflict => and_congr_right (fun hconflict => ?_)
    rw [Function.comp_apply, hstatus conflict hconflict]

theorem isEmpty_sorted (value : Option Json) :
    ((itemsOf (value.map Json.sorted)).getD []).isEmpty = ((itemsOf value).getD []).isEmpty := by
  rw [itemsOf_sorted]
  cases itemsOf value with
  | none => rfl
  | some items => exact List.isEmpty_map

theorem fieldOf_status_sorted (hv : v.WellFormed) :
    isTheText "FRESH" (fieldOf (v.sorted.field "validity") "status")
      = isTheText "FRESH" (fieldOf (v.field "validity") "status") := by
  rw [Json.field_sorted hv]
  cases hvalidity : v.field "validity" with
  | none => rfl
  | some validity =>
    unfold fieldOf
    rw [Option.map_some, Option.bind_some, Option.bind_some,
      Json.field_sorted (wellFormed_fields hv "validity" validity hvalidity)]
    exact isText_sorted _ _

theorem validateMemoryEnvelopeV2_sorted (hv : v.WellFormed) :
    validateMemoryEnvelopeV2 v.sorted = [] ↔ validateMemoryEnvelopeV2 v = [] := by
  refine ofRecord_some_sorted hv "$" (fun v hv => ?_)
  have hevidence := evidenceIds_sorted hv
  have hopen := anyOpen_sorted hv
  have hstatus := fieldOf_status_sorted hv
  have hfield := wellFormed_fields hv
  rw [hevidence, hopen, hstatus]
  simp only [List.append_eq_nil_iff, rejectUnknown_sorted, requireText_sorted hv, allowText_sorted hv,
    Json.field_sorted hv, idsOf_sorted, isEmpty_sorted, validateConfidence_sorted (hfield _),
    validateTemporal_sorted (hfield _), validateValidity_sorted (hfield _)]
  rw [validateItems_sorted (hfield "evidence") _ _ (fun _ hv path => validateEvidence_sorted hv path),
    validateItems_sorted (hfield "conflicts") _ _ (fun _ hv path => validateConflict_sorted hv path _),
    validateItems_sorted (hfield "signatures") _ _ (fun _ hv path => validateSignature_sorted hv path _)]

theorem valid_of_same {v w : Json} (hv : v.WellFormed) (hw : w.WellFormed) (hsame : v.Same w)
    (h : validateMemoryEnvelopeV2 v = []) : validateMemoryEnvelopeV2 w = [] := by
  rw [← validateMemoryEnvelopeV2_sorted hw, ← show v.sorted = w.sorted from hsame]
  exact (validateMemoryEnvelopeV2_sorted hv).mpr h

end Validation

theorem wellFormed_unsignedEnvelope {v : Json} (hv : v.WellFormed) : (unsignedEnvelope v).WellFormed := by
  cases v with
  | object fields =>
    rw [Json.WellFormed, Json.wellFormedFields_iff] at hv
    rw [unsignedEnvelope, Json.WellFormed, Json.wellFormedFields_iff]
    exact ⟨hv.1.sublist (List.filter_sublist.map _), fun p hp => hv.2 p (List.mem_of_mem_filter hp)⟩
  | _ => exact hv

theorem sorted_unsignedEnvelope {v : Json} (hv : v.WellFormed) :
    (unsignedEnvelope v).sorted = unsignedEnvelope v.sorted := by
  cases v with
  | object fields =>
    have hunsigned := wellFormed_unsignedEnvelope hv
    rw [unsignedEnvelope, Json.sorted, Json.sorted, unsignedEnvelope]
    refine congrArg Json.object (sortByKeyOf_eq (r := UnitsLe) ?_ ?_ ?_)
    · rw [Json.sortedFields_eq, List.map_map]
      exact hunsigned.1
    · have hperm := (sortByKey_perm (Json.sortedFields fields)).filter (fun p => p.1 ≠ "signatures")
      rw [Json.sortedFields_eq, List.filter_map] at hperm
      rw [Json.sortedFields_eq, Json.sortedFields_eq]
      exact hperm
    · exact (sortByKeyOf_sorted (r := UnitsLe) (Json.sortedFields fields)).filter _
  | _ => rfl

theorem unsignedEnvelope_same {v w : Json} (hv : v.WellFormed) (hw : w.WellFormed) (h : v.Same w) :
    (unsignedEnvelope v).Same (unsignedEnvelope w) := by
  unfold Json.Same
  rw [sorted_unsignedEnvelope hv, sorted_unsignedEnvelope hw, show v.sorted = w.sorted from h]

theorem canonicalizeUnsignedEnvelope_eq (v : Json) :
    canonicalizeUnsignedEnvelope v = String.ofList (unsignedEnvelope v).sorted.stringify := by
  rw [canonicalizeUnsignedEnvelope, canonicalFragment_eq]

theorem canonicalizeMemoryEnvelopeV2_eq_ok {v : Json} {text : String} : canonicalizeMemoryEnvelopeV2 v = .ok text ↔
      validateMemoryEnvelopeV2 v = [] ∧ canonicalizeUnsignedEnvelope v = text := by
  unfold canonicalizeMemoryEnvelopeV2 parseMemoryEnvelopeV2
  split_ifs with h
  · exact ⟨nofun, fun hvalid => absurd hvalid.1 h⟩
  · rw [not_not] at h
    exact ⟨fun heq => ⟨h, Except.ok.inj heq⟩, fun heq => congrArg Except.ok heq.2⟩

/-- The text that is signed determines the envelope up to the order of its keys and its signatures, and nothing but
    that is left open by it. -/
theorem canonical_form {v : Json} (hv : v.WellFormed) (hvalid : validateMemoryEnvelopeV2 v = []) :
    ∃ text, canonicalizeMemoryEnvelopeV2 v = .ok text ∧
      (∀ w, Json.Reordered v w → canonicalizeMemoryEnvelopeV2 w = .ok text) ∧
      ∀ w, w.WellFormed → canonicalizeMemoryEnvelopeV2 w = .ok text →
        Json.Reordered (unsignedEnvelope v) (unsignedEnvelope w) := by
  refine ⟨canonicalizeUnsignedEnvelope v, canonicalizeMemoryEnvelopeV2_eq_ok.mpr ⟨hvalid, rfl⟩, ?_, ?_⟩
  · intro w hreordered
    have hw := hreordered.wellFormed hv
    have hsame := hreordered.same hv
    refine canonicalizeMemoryEnvelopeV2_eq_ok.mpr ⟨valid_of_same hv hw hsame hvalid, ?_⟩
    rw [canonicalizeUnsignedEnvelope_eq, canonicalizeUnsignedEnvelope_eq,
      show (unsignedEnvelope v).sorted = (unsignedEnvelope w).sorted from unsignedEnvelope_same hv hw hsame]
  · intro w hw hok
    have htext := (canonicalizeMemoryEnvelopeV2_eq_ok.mp hok).2
    rw [canonicalizeUnsignedEnvelope_eq, canonicalizeUnsignedEnvelope_eq] at htext
    have hsame := Json.same_of_stringify_sorted (wellFormed_unsignedEnvelope hw) (wellFormed_unsignedEnvelope hv)
      (String.ofList_injective htext)
    exact (Json.Same.reordered hsame).symm

def dependentEnvelope : Json :=
  .object [("specVersion", .string "premise/2"), ("tenantId", .string "tenant"), ("memoryId", .string "a"),
    ("evidence", .array []), ("confidence", .object [("score", .number 1), ("method", .string "manual")]),
    ("conflicts", .array []), ("temporal", .object [("asOf", .string "2026-01-01T00:00:00Z")]),
    ("validity", .object [("status", .string "FRESH"), ("checkedAt", .string "2026-01-01T00:00:00Z"),
      ("policy", .string "MANUAL")]),
    ("dependsOn", .array [.string "b"]), ("signatures", .array [])]

theorem wellFormed_dependentEnvelope : dependentEnvelope.WellFormed := by
  have hscore : IsDecimal (1 : ℚ) := by exact_mod_cast isDecimal_intCast 1
  simp [dependentEnvelope, Json.WellFormed, Json.WellFormedFields, Json.WellFormedItems, hscore]

theorem canonical_form_dependent : ∃ text, canonicalizeMemoryEnvelopeV2 dependentEnvelope = .ok text ∧
    (∀ w, Json.Reordered dependentEnvelope w → canonicalizeMemoryEnvelopeV2 w = .ok text) ∧
    ∀ w, w.WellFormed → canonicalizeMemoryEnvelopeV2 w = .ok text →
      Json.Reordered (unsignedEnvelope dependentEnvelope) (unsignedEnvelope w) :=
  canonical_form wellFormed_dependentEnvelope (by decide +kernel)

end Premise.Protocol.V2Document
