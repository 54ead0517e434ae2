import Premise.Js.JsonRead

/-!
# Documents in key order

Sorting the fields of an object by their keys, and the texts of arrays and objects as joined texts.
-/

namespace Premise.Js

open Collections

section Sorting

variable {α β : Type}

instance : IsTrans (String × α) (fun p q => UnitsLe p.1 q.1) :=
  ⟨fun p q r h h' => IsTrans.trans (r := UnitsLe) p.1 q.1 r.1 h h'⟩

instance : Std.Total (fun p q : String × α => UnitsLe p.1 q.1) :=
  ⟨fun p q => Std.Total.total (r := UnitsLe) p.1 q.1⟩

theorem sortByKey_sortByKey (l : List (String × α)) : JsValue.sortByKey (JsValue.sortByKey l) = JsValue.sortByKey l :=
  List.Pairwise.insertionSort_eq (List.pairwise_insertionSort _ _)

theorem sortByKey_map (f : α → β) (l : List (String × α)) :
    JsValue.sortByKey (l.map (fun p => (p.1, f p.2))) = (JsValue.sortByKey l).map (fun p => (p.1, f p.2)) := by
  unfold JsValue.sortByKey
  rw [List.map_insertionSort (r := fun p q : String × α => UnitsLe p.1 q.1) (s := fun p q : String × β => UnitsLe p.1 q.1)]
  exact fun p _ q _ => Iff.rfl

theorem sortByKey_perm (l : List (String × α)) : (JsValue.sortByKey l).Perm l := List.perm_insertionSort _ l

end Sorting

namespace Json

theorem moreItems_eq (items : List Json) : moreItems items = (items.map stringify).flatMap (fun text => ',' :: text) := by
  induction items with
  | nil => rfl
  | cons v items ih => rw [moreItems, ih, List.map_cons, List.flatMap_cons, List.cons_append]

theorem intercalate_comma (text : List Char) (texts : List (List Char)) :
    [','].intercalate (text :: texts) = text ++ texts.flatMap (fun text => ',' :: text) := by
  induction texts generalizing text with
  | nil => simp
  | cons next texts ih =>
    rw [List.intercalate_cons_cons, ih, List.flatMap_cons, List.append_assoc]
    rfl

theorem mem_joined {x : Char} (hx : x ≠ ',') (texts : List (List Char)) :
    x ∈ [','].intercalate texts ↔ ∃ text ∈ texts, x ∈ text := by
  cases texts with
  | nil => simp
  | cons text texts => simp [intercalate_comma, hx]

theorem joinItems_eq (items : List Json) : joinItems items = [','].intercalate (items.map stringify) := by
  cases items with
  | nil => rfl
  | cons v items => rw [joinItems, moreItems_eq, List.map_cons, intercalate_comma]

def fieldText (p : String × Json) : List Char := jsonString p.1 ++ ':' :: p.2.stringify

theorem moreFields_eq (fields : List (String × Json)) :
    moreFields fields = (fields.map fieldText).flatMap (fun text => ',' :: text) := by
  induction fields with
  | nil => rfl
  | cons p fields ih =>
    rw [moreFields, ih, List.map_cons, List.flatMap_cons]
    simp [fieldText]

theorem joinFields_eq (fields : List (String × Json)) : joinFields fields = [','].intercalate (fields.map fieldText) := by
  cases fields with
  | nil => rfl
  | cons p fields =>
    rw [joinFields, moreFields_eq, List.map_cons, intercalate_comma]
    simp [fieldText]

theorem sortedItems_eq (items : List Json) : sortedItems items = items.map sorted := by
  induction items with
  | nil => rfl
  | cons v items ih => rw [sortedItems, ih, List.map_cons]

theorem sortedFields_eq (fields : List (String × Json)) :
    sortedFields fields = fields.map (fun p => (p.1, p.2.sorted)) := by
  induction fields with
  | nil => rfl
  | cons p fields ih => rw [sortedFields, ih, List.map_cons]

theorem wellFormedItems_iff (items : List Json) : WellFormedItems items ↔ ∀ v ∈ items, v.WellFormed := by
  induction items with
  | nil => simp [WellFormedItems]
  | cons v items ih => simp [WellFormedItems, ih]

theorem wellFormedFields_iff (fields : List (String × Json)) : WellFormedFields fields ↔ ∀ p ∈ fields, p.2.WellFormed := by
  induction fields with
  | nil => simp [WellFormedFields]
  | cons p fields ih => simp [WellFormedFields, ih]

end Json

/-!
# Documents in the order of a relation on keys

Sorting the fields of every object by a linear order on keys. Documents that are the same in one order are the
same in any other, and a document looks the same in two orders when these agree on the keys of every object.
-/

def sortByKeyOf (r : String → String → Prop) [DecidableRel r] {α : Type} (properties : List (String × α)) :
    List (String × α) :=
  properties.insertionSort (fun p q => r p.1 q.1)

section Sorting

variable {r : String → String → Prop} [DecidableRel r] {α β : Type}

theorem sortByKeyOf_perm (l : List (String × α)) : (sortByKeyOf r l).Perm l := List.perm_insertionSort _ l

theorem sortByKeyOf_map (f : α → β) (l : List (String × α)) :
    sortByKeyOf r (l.map (fun p => (p.1, f p.2))) = (sortByKeyOf r l).map (fun p => (p.1, f p.2)) := by
  unfold sortByKeyOf
  rw [List.map_insertionSort (r := fun p q : String × α => r p.1 q.1) (s := fun p q : String × β => r p.1 q.1)]
  exact fun p _ q _ => Iff.rfl

variable [IsTrans String r] [Std.Total r]

theorem sortByKeyOf_sorted (l : List (String × α)) : (sortByKeyOf r l).Pairwise (fun p q => r p.1 q.1) := by
  have htrans : IsTrans (String × α) (fun p q => r p.1 q.1) :=
    ⟨fun p q s h h' => IsTrans.trans (r := r) p.1 q.1 s.1 h h'⟩
  have htotal : Std.Total (fun p q : String × α => r p.1 q.1) := ⟨fun p q => Std.Total.total (r := r) p.1 q.1⟩
  exact List.pairwise_insertionSort _ l

variable [Std.Antisymm r]

theorem sortByKeyOf_eq {l sorted : List (String × α)} (hkeys : (l.map Prod.fst).Nodup) (hperm : sorted.Perm l)
    (hsorted : sorted.Pairwise (fun p q => r p.1 q.1)) : sortByKeyOf r l = sorted := by
  have hperm' : (sortByKeyOf r l).Perm l := sortByKeyOf_perm l
  refine List.Perm.eq_of_pairwise ?_ (sortByKeyOf_sorted l) hsorted (hperm'.trans hperm.symm)
  intro p q hp hq hpq hqp
  exact List.inj_on_of_nodup_map hkeys (hperm'.mem_iff.mp hp) (hperm.mem_iff.mp hq)
    (Std.Antisymm.antisymm (r := r) _ _ hpq hqp)

theorem sortByKeyOf_congr {l l' : List (String × α)} (hkeys : (l'.map Prod.fst).Nodup) (hperm : l.Perm l') :
    sortByKeyOf r l = sortByKeyOf r l' :=
  (sortByKeyOf_eq hkeys ((sortByKeyOf_perm l).trans hperm) (sortByKeyOf_sorted l)).symm

end Sorting

namespace Json

section Documents

variable (r : String → String → Prop) [DecidableRel r]

mutual

/-- The document with the fields of every object in the order of their keys. -/
def sortedBy : Json → Json
  | .array items => .array (sortedItemsBy items)
  | .object fields => .object (sortByKeyOf r (sortedFieldsBy fields))
  | .null => .null
  | .boolean b => .boolean b
  | .number value => .number value
  | .string s => .string s

def sortedItemsBy : List Json → List Json
  | [] => []
  | v :: items => v.sortedBy :: sortedItemsBy items

def sortedFieldsBy : List (String × Json) → List (String × Json)
  | [] => []
  | (k, v) :: fields => (k, v.sortedBy) :: sortedFieldsBy fields

end

theorem sortedItemsBy_eq (items : List Json) : sortedItemsBy r items = items.map (sortedBy r) := by
  induction items with
  | nil => rfl
  | cons v items ih => rw [sortedItemsBy, ih, List.map_cons]

theorem sortedFieldsBy_eq (fields : List (String × Json)) :
    sortedFieldsBy r fields = fields.map (fun p => (p.1, p.2.sortedBy r)) := by
  induction fields with
  | nil => rfl
  | cons p fields ih => rw [sortedFieldsBy, ih, List.map_cons]

theorem keys_sortedFieldsBy (fields : List (String × Json)) :
    (sortedFieldsBy r fields).map Prod.fst = fields.map Prod.fst := by
  rw [sortedFieldsBy_eq, List.map_map]
  rfl

theorem wellFormed_sortedBy {v : Json} (h : v.WellFormed) : (v.sortedBy r).WellFormed := by
  induction v using induct with
  | null | boolean | number | string => exact h
  | array items ih =>
    rw [WellFormed, wellFormedItems_iff] at h
    rw [sortedBy, WellFormed, wellFormedItems_iff, sortedItemsBy_eq, List.forall_mem_map]
    exact fun v hv => ih v hv (h v hv)
  | object fields ih =>
    rw [WellFormed, wellFormedFields_iff] at h
    have hperm : (sortByKeyOf r (sortedFieldsBy r fields)).Perm (sortedFieldsBy r fields) := sortByKeyOf_perm _
    rw [sortedBy, WellFormed, wellFormedFields_iff, (hperm.map Prod.fst).nodup_iff, keys_sortedFieldsBy]
    refine ⟨h.1, fun p hp => ?_⟩
    rw [hperm.mem_iff, sortedFieldsBy_eq] at hp
    obtain ⟨q, hq, rfl⟩ := List.mem_map.mp hp
    exact ih q hq (h.2 q hq)

end Documents

theorem sorted_eq (v : Json) : v.sorted = v.sortedBy UnitsLe := by
  induction v using induct with
  | null | boolean | number | string => rfl
  | array items ih =>
    rw [sorted, sortedBy, sortedItems_eq, sortedItemsBy_eq]
    exact congrArg array (List.map_congr_left ih)
  | object fields ih =>
    rw [sorted, sortedBy, sortedFields_eq, sortedFieldsBy_eq,
      List.map_congr_left fun q hq => congrArg (Prod.mk q.1) (ih q hq)]
    rfl

theorem wellFormed_sorted {v : Json} (h : v.WellFormed) : v.sorted.WellFormed := by
  rw [sorted_eq]
  exact wellFormed_sortedBy _ h

/-- The fields of objects that are the same are the same. -/
theorem Same.mem {fields fields' : List (String × Json)} (h : (object fields).Same (object fields')) {key : String}
    {v : Json} (hv : (key, v) ∈ fields) : ∃ w, (key, w) ∈ fields' ∧ v.Same w := by
  unfold Same at h
  rw [sorted, sorted] at h
  have hmem : (key, v.sorted) ∈ sortedFields fields := by
    rw [sortedFields_eq]
    exact List.mem_map_of_mem hv
  rw [← (sortByKey_perm _).mem_iff, Json.object.inj h, (sortByKey_perm _).mem_iff, sortedFields_eq] at hmem
  obtain ⟨⟨k, w⟩, hw, heq⟩ := List.mem_map.mp hmem
  obtain ⟨rfl, hsame⟩ := Prod.mk.inj heq
  exact ⟨w, hw, hsame.symm⟩

theorem same_of_stringify_sorted {v w : Json} (hv : v.WellFormed) (hw : w.WellFormed)
    (h : v.sorted.stringify = w.sorted.stringify) : v.Same w := by
  have hparse := parseJson_stringify (wellFormed_sorted hv)
  rw [h, parseJson_stringify (wellFormed_sorted hw)] at hparse
  exact (Option.some.inj hparse).symm

section Orders

set_option linter.unusedSectionVars false

variable (r r' : String → String → Prop) [DecidableRel r] [DecidableRel r']

mutual

def KeysAlike : Json → Prop
  | .array items => KeysAlikeItems items
  | .object fields => (∀ p ∈ fields, ∀ q ∈ fields, (r p.1 q.1 ↔ r' p.1 q.1)) ∧ KeysAlikeFields fields
  | _ => True

def KeysAlikeItems : List Json → Prop
  | [] => True
  | v :: items => v.KeysAlike ∧ KeysAlikeItems items

def KeysAlikeFields : List (String × Json) → Prop
  | [] => True
  | (_, v) :: fields => v.KeysAlike ∧ KeysAlikeFields fields

end

variable [IsTrans String r'] [Std.Total r'] [Std.Antisymm r']

theorem sortedBy_sortedBy {v : Json} (h : v.WellFormed) : (v.sortedBy r).sortedBy r' = v.sortedBy r' := by
  induction v using induct with
  | null | boolean | number | string => rfl
  | array items ih =>
    rw [WellFormed, wellFormedItems_iff] at h
    rw [sortedBy, sortedBy, sortedBy, sortedItemsBy_eq, sortedItemsBy_eq, sortedItemsBy_eq, List.map_map]
    exact congrArg array (List.map_congr_left fun v hv => ih v hv (h v hv))
  | object fields ih =>
    rw [WellFormed, wellFormedFields_iff] at h
    have hfields : sortedFieldsBy r' (sortedFieldsBy r fields) = sortedFieldsBy r' fields := by
      rw [sortedFieldsBy_eq, sortedFieldsBy_eq, sortedFieldsBy_eq, List.map_map]
      exact List.map_congr_left fun q hq => congrArg (Prod.mk q.1) (ih q hq (h.2 q hq))
    rw [sortedBy, sortedBy, sortedBy, sortedFieldsBy_eq r' (sortByKeyOf r _), ← sortByKeyOf_map, ← sortedFieldsBy_eq,
      hfields, sortByKeyOf_congr _ (sortByKeyOf_perm _)]
    rw [keys_sortedFieldsBy]
    exact h.1

theorem sortedBy_eq_of_sortedBy_eq {v w : Json} (hv : v.WellFormed) (hw : w.WellFormed)
    (h : v.sortedBy r = w.sortedBy r) : v.sortedBy r' = w.sortedBy r' := by
  rw [← sortedBy_sortedBy r r' hv, h, sortedBy_sortedBy r r' hw]

variable [IsTrans String r] [Std.Total r] [Std.Antisymm r]

theorem keysAlike_of_sorted {l : List (String × Json)} (hr : l.Pairwise (fun p q => r p.1 q.1))
    (hr' : l.Pairwise (fun p q => r' p.1 q.1)) : ∀ p ∈ l, ∀ q ∈ l, (r p.1 q.1 ↔ r' p.1 q.1) := by
  have hrefl : ∀ (r : String → String → Prop) [Std.Total r] (k : String), r k k :=
    fun r _ k => (Std.Total.total (r := r) k k).elim id id
  have hsymm : Std.Symm (fun p q : String × Json => (r p.1 q.1 ↔ r' p.1 q.1) ∧ (r q.1 p.1 ↔ r' q.1 p.1)) :=
    ⟨fun p q h => h.symm⟩
  have hpairs : l.Pairwise (fun p q => (r p.1 q.1 ↔ r' p.1 q.1) ∧ (r q.1 p.1 ↔ r' q.1 p.1)) := by
    refine (hr.and hr').imp fun {p q} h => ⟨iff_of_true h.1 h.2, ?_⟩
    by_cases hkey : p.1 = q.1
    · rw [hkey]
      exact iff_of_true (hrefl r _) (hrefl r' _)
    · exact iff_of_false (fun hqp => hkey (Std.Antisymm.antisymm (r := r) _ _ h.1 hqp))
        (fun hqp => hkey (Std.Antisymm.antisymm (r := r') _ _ h.2 hqp))
  intro p hp q hq
  refine (hpairs.forall_of_forall (fun p _ => ?_) hp hq).1
  exact ⟨iff_of_true (hrefl r _) (hrefl r' _), iff_of_true (hrefl r _) (hrefl r' _)⟩

/-- The fields of an object look the same in both orders when these agree on the keys. -/
theorem sortByKeyOf_eq_iff {fields : List (String × Json)} (hkeys : (fields.map Prod.fst).Nodup) :
    sortByKeyOf r (sortedFieldsBy r fields) = sortByKeyOf r' (sortedFieldsBy r' fields)
      ↔ (∀ p ∈ fields, ∀ q ∈ fields, (r p.1 q.1 ↔ r' p.1 q.1)) ∧ sortedFieldsBy r fields = sortedFieldsBy r' fields := by
  have hperm : (sortByKeyOf r (sortedFieldsBy r fields)).Perm (sortedFieldsBy r fields) := sortByKeyOf_perm _
  have hperm' : (sortByKeyOf r' (sortedFieldsBy r' fields)).Perm (sortedFieldsBy r' fields) := sortByKeyOf_perm _
  rw [sortedFieldsBy_eq] at hperm
  rw [sortedFieldsBy_eq] at hperm'
  constructor
  · intro h
    have hmem : ∀ p ∈ fields, (p.1, p.2.sortedBy r) ∈ sortByKeyOf r (sortedFieldsBy r fields) := by
      intro p hp
      rw [sortedFieldsBy_eq, hperm.mem_iff]
      exact List.mem_map_of_mem (f := fun p : String × Json => (p.1, p.2.sortedBy r)) hp
    constructor
    · have halike := keysAlike_of_sorted r r' (sortByKeyOf_sorted (sortedFieldsBy r fields))
        (h ▸ sortByKeyOf_sorted (sortedFieldsBy r' fields))
      intro p hp q hq
      exact halike (p.1, p.2.sortedBy r) (hmem p hp) (q.1, q.2.sortedBy r) (hmem q hq)
    · rw [sortedFieldsBy_eq, sortedFieldsBy_eq]
      refine List.map_congr_left fun p hp => ?_
      have hmem' := hmem p hp
      rw [h, sortedFieldsBy_eq, hperm'.mem_iff] at hmem'
      obtain ⟨q, hq, heq⟩ := List.mem_map.mp hmem'
      obtain ⟨hkey, hvalue⟩ := Prod.mk.inj heq
      rw [List.inj_on_of_nodup_map hkeys hq hp hkey] at hvalue
      rw [hvalue]
  · intro ⟨halike, heq⟩
    rw [heq]
    refine sortByKeyOf_eq ?_ (sortByKeyOf_perm _) ?_
    · rw [keys_sortedFieldsBy]
      exact hkeys
    · refine (sortByKeyOf_sorted (r := r') (sortedFieldsBy r' fields)).imp_of_mem ?_
      intro p q hp hq hpq
      rw [sortedFieldsBy_eq, hperm'.mem_iff] at hp hq
      obtain ⟨p', hp', rfl⟩ := List.mem_map.mp hp
      obtain ⟨q', hq', rfl⟩ := List.mem_map.mp hq
      exact (halike p' hp' q' hq').mpr hpq

mutual

theorem sortedBy_eq_iff {v : Json} (h : v.WellFormed) : v.sortedBy r = v.sortedBy r' ↔ v.KeysAlike r r' :=
  match v with
  | .null | .boolean _ | .number _ | .string _ => iff_of_true rfl trivial
  | .array items => by
    rw [WellFormed] at h
    rw [sortedBy, sortedBy, KeysAlike, Json.array.injEq, sortedItemsBy_eq_iff h]
  | .object fields => by
    rw [WellFormed] at h
    rw [sortedBy, sortedBy, KeysAlike, Json.object.injEq, sortByKeyOf_eq_iff r r' h.1, sortedFieldsBy_eq_iff h.2]

theorem sortedItemsBy_eq_iff {items : List Json} (h : WellFormedItems items) :
    sortedItemsBy r items = sortedItemsBy r' items ↔ KeysAlikeItems r r' items :=
  match items with
  | [] => iff_of_true rfl trivial
  | _ :: _ => by
    rw [sortedItemsBy, sortedItemsBy, KeysAlikeItems, List.cons.injEq, sortedBy_eq_iff h.1, sortedItemsBy_eq_iff h.2]

theorem sortedFieldsBy_eq_iff {fields : List (String × Json)} (h : WellFormedFields fields) :
    sortedFieldsBy r fields = sortedFieldsBy r' fields ↔ KeysAlikeFields r r' fields :=
  match fields with
  | [] => iff_of_true rfl trivial
  | (k, v) :: _ => by
    rw [sortedFieldsBy, sortedFieldsBy, KeysAlikeFields, List.cons.injEq, Prod.mk.injEq, sortedBy_eq_iff h.1,
      sortedFieldsBy_eq_iff h.2]
    exact and_congr_left' (and_iff_right rfl)

end

end Orders

end Json

end Premise.Js
