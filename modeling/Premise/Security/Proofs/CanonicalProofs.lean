import Premise.Js.KeyOrder
import Premise.Security.Canonical

/-!
# Proofs: canonical texts

The canonical text of a value is the text of its document, and documents are read back from their
texts. Values with one canonical text therefore have one document.
-/

namespace Premise.Security

open Collections Js

theorem joinTexts_eq : ∀ texts : List (List Char), joinTexts texts = [','].intercalate texts
  | [] => rfl
  | [text] => by
    rw [Json.intercalate_comma, List.flatMap_nil, List.append_nil]
    rfl
  | text :: next :: texts => by
    rw [List.intercalate_cons_cons, ← joinTexts_eq (next :: texts), List.append_assoc]
    rfl

theorem joinItems_eq (items : List Json) : Json.joinItems items = joinTexts (items.map Json.stringify) := by
  rw [Json.joinItems_eq, joinTexts_eq]

theorem joinFields_eq (fields : List (String × Json)) : Json.joinFields fields = joinTexts (fields.map Json.fieldText) := by
  rw [Json.joinFields_eq, joinTexts_eq]

theorem inKeyOrder_map {α β γ δ : Type} (f : α → β) (g : γ → δ) (make : String → β → δ)
    (make' : String → α → γ) (hmake : ∀ key a, make key (f a) = g (make' key a))
    (properties : List (String × Except SecurityError α)) :
    inKeyOrder make (properties.map (fun p => (p.1, p.2.map f))) =
      (inKeyOrder make' properties).map (List.map g) := by
  unfold inKeyOrder
  rw [sortByKey_map]
  induction JsValue.sortByKey properties with
  | nil => rfl
  | cons p l ih =>
    rw [List.map_cons, List.mapM_cons, List.mapM_cons, ih]
    cases hp : p.2 with
    | error err => rfl
    | ok a =>
      cases l.mapM (fun p => p.2.map (make' p.1)) with
      | error err => rfl
      | ok rest => simp [Except.map, hmake, pure, Except.pure, bind, Except.bind]

namespace Payload

mutual

theorem canonicalFragment_eq (v : Payload) : v.canonicalFragment = v.document.map Json.stringify := by
  match v with
  | .null | .undefined | .boolean _ | .number _ | .nonFinite | .string _ | .bigint _ | .unsupported => rfl
  | .bytes content =>
    simp only [canonicalFragment, document, Except.map, Json.stringify, Json.joinFields, Json.moreFields]
    simp [jsonString, escapeChar]
  | .date none | .date (some _) | .collection | .circular => rfl
  | .array items =>
    rw [canonicalFragment, document, canonicalItems_eq items]
    cases documents items with
    | error err => rfl
    | ok docs => simp [Except.map, bind, Except.bind, pure, Except.pure, Json.stringify, joinItems_eq]
  | .error _ _ _ | .object false _ => rfl
  | .object true properties =>
    rw [canonicalFragment, document, canonicalProperties_eq properties,
      inKeyOrder_map Json.stringify Json.fieldText _ Prod.mk (fun _ _ => rfl)]
    cases inKeyOrder Prod.mk (fieldDocuments properties) with
    | error err => rfl
    | ok fields => simp [Except.map, bind, Except.bind, pure, Except.pure, Json.stringify, joinFields_eq]

theorem canonicalItems_eq (items : List Payload) :
    canonicalItems items = (documents items).map (List.map Json.stringify) := by
  match items with
  | [] => rfl
  | v :: items =>
    rw [canonicalItems, documents, canonicalFragment_eq v, canonicalItems_eq items]
    cases v.document with
    | error err => rfl
    | ok doc =>
      cases documents items with
      | error | ok => rfl

theorem canonicalProperties_eq (properties : List (String × Payload)) : canonicalProperties properties =
      (fieldDocuments properties).map (fun p => (p.1, p.2.map Json.stringify)) := by
  match properties with
  | [] => rfl
  | (key, v) :: properties =>
    rw [canonicalProperties, fieldDocuments, canonicalFragment_eq v, canonicalProperties_eq properties, List.map_cons]

end

theorem canonicalize_eq_ok {v : Payload} {text : String} (h : v.canonicalize = .ok text) :
    ∃ doc, v.document = .ok doc ∧ text.toList = doc.stringify := by
  unfold canonicalize at h
  rw [canonicalFragment_eq] at h
  cases hdoc : v.document with
  | error err =>
    rw [hdoc] at h
    cases h
  | ok doc =>
    rw [hdoc] at h
    cases h
    exact ⟨doc, rfl, String.toList_ofList⟩

theorem keys_fieldDocuments (properties : List (String × Payload)) :
    (fieldDocuments properties).map Prod.fst = properties.map Prod.fst := by
  induction properties with
  | nil => rfl
  | cons p properties ih => rw [fieldDocuments, List.map_cons, List.map_cons, ih]

end Payload

theorem inKeyOrder_eq_ok {α : Type} {properties : List (String × Except SecurityError α)}
    {fields : List (String × α)} (h : inKeyOrder Prod.mk properties = .ok fields) :
    JsValue.sortByKey properties = fields.map (fun p => (p.1, .ok p.2)) := by
  unfold inKeyOrder at h
  generalize JsValue.sortByKey properties = l at h ⊢
  induction l generalizing fields with
  | nil =>
    cases h
    rfl
  | cons p l ih =>
    rw [List.mapM_cons] at h
    obtain ⟨key, made⟩ := p
    cases made with
    | error err => cases h
    | ok a =>
      cases hrest : l.mapM (fun p => p.2.map (Prod.mk p.1)) with
      | error err =>
        rw [hrest] at h
        cases h
      | ok rest =>
        rw [hrest] at h
        cases h
        rw [ih hrest, List.map_cons]

theorem wellFormedFields_iff {fields : List (String × Json)} :
    Json.WellFormedFields fields ↔ ∀ p ∈ fields, p.2.WellFormed := by
  induction fields with
  | nil => simp [Json.WellFormedFields]
  | cons p fields ih => rw [Json.WellFormedFields, ih, List.forall_mem_cons]

namespace Payload

mutual

theorem wellFormed_document {v : Payload} (hv : v.WellFormed) {doc : Json} (h : v.document = .ok doc) : doc.WellFormed := by
  match v with
  | .null => obtain rfl := Except.ok.inj h; trivial
  | .undefined => cases h
  | .boolean b => obtain rfl := Except.ok.inj h; trivial
  | .number value => obtain rfl := Except.ok.inj h; exact value.property
  | .nonFinite => cases h
  | .string s => obtain rfl := Except.ok.inj h; trivial
  | .bigint _ | .unsupported => cases h
  | .bytes content =>
    cases h
    exact ⟨List.nodup_singleton _, trivial, trivial⟩
  | .date none => cases h
  | .date (some iso) => obtain rfl := Except.ok.inj h; trivial
  | .collection | .circular => cases h
  | .array items =>
    rw [document] at h
    cases hdocs : documents items with
    | error err => rw [hdocs] at h; cases h
    | ok docs =>
      rw [hdocs] at h
      cases h
      exact wellFormed_documents hv hdocs
  | .error _ _ _ | .object false _ => cases h
  | .object true properties =>
    rw [document] at h
    cases hfields : inKeyOrder Prod.mk (fieldDocuments properties) with
    | error err => rw [hfields] at h; cases h
    | ok fields =>
      rw [hfields] at h
      cases h
      have hsorted := inKeyOrder_eq_ok hfields
      have hperm := (sortByKey_perm (fieldDocuments properties)).symm
      rw [hsorted] at hperm
      constructor
      · have hkeys := hperm.map Prod.fst
        rw [keys_fieldDocuments, List.map_map] at hkeys
        exact hkeys.nodup_iff.mp hv.1
      · rw [wellFormedFields_iff]
        rintro ⟨key, field⟩ hmem
        refine wellFormed_fieldDocuments hv.2 key (hperm.mem_iff.mpr ?_)
        exact List.mem_map.mpr ⟨(key, field), hmem, rfl⟩

theorem wellFormed_documents {items : List Payload} (hv : WellFormedItems items) {docs : List Json}
    (h : documents items = .ok docs) : Json.WellFormedItems docs := by
  match items with
  | [] => obtain rfl := Except.ok.inj h; trivial
  | v :: items =>
    rw [documents] at h
    cases hdoc : v.document with
    | error err => rw [hdoc] at h; cases h
    | ok doc =>
      cases hdocs : documents items with
      | error err => rw [hdoc, hdocs] at h; cases h
      | ok rest =>
        rw [hdoc, hdocs] at h
        cases h
        exact ⟨wellFormed_document hv.1 hdoc, wellFormed_documents hv.2 hdocs⟩

theorem wellFormed_fieldDocuments {properties : List (String × Payload)}
    (hv : WellFormedProperties properties) (key : String) {doc : Json}
    (h : (key, Except.ok doc) ∈ fieldDocuments properties) : doc.WellFormed := by
  match properties with
  | [] => cases h
  | (k, v) :: properties =>
    rw [fieldDocuments, List.mem_cons] at h
    rcases h with h | h
    · exact wellFormed_document hv.1 (Prod.mk.inj h).2.symm
    · exact wellFormed_fieldDocuments hv.2 key h

end

theorem document_eq_of_canonicalize_eq {v w : Payload} (hv : v.WellFormed) (hw : w.WellFormed)
    {text : String} (h : v.canonicalize = .ok text) (h' : w.canonicalize = .ok text) :
    v.document = w.document := by
  obtain ⟨doc, hdoc, htext⟩ := canonicalize_eq_ok h
  obtain ⟨doc', hdoc', htext'⟩ := canonicalize_eq_ok h'
  have hread := parseJson_stringify (wellFormed_document hv hdoc)
  rw [← htext, htext', parseJson_stringify (wellFormed_document hw hdoc')] at hread
  rw [hdoc, hdoc', Option.some.inj hread]

end Payload

end Premise.Security
