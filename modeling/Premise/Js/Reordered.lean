import Premise.Js.KeyOrder

/-!
# Documents with their keys in another order

A reordering exchanges the fields of one object, at any depth. Documents whose objects have no key twice are
reorderings of each other if and only if they are the same in key order, and then the fields that they have are
reorderings of each other too.
-/

namespace Premise.Js.Json

open Collections Relation

/-- The fields of one object, at any depth, are put in another order. -/
inductive Reorders : Json → Json → Prop
  | fields {fields fields' : List (String × Json)} (h : fields.Perm fields') :
    Reorders (.object fields) (.object fields')
  | item (before after : List Json) {v w : Json} (h : Reorders v w) :
    Reorders (.array (before ++ v :: after)) (.array (before ++ w :: after))
  | value (before after : List (String × Json)) (key : String) {v w : Json} (h : Reorders v w) :
    Reorders (.object (before ++ (key, v) :: after)) (.object (before ++ (key, w) :: after))

/-- The documents differ in the order of the keys of their objects only. -/
def Reordered : Json → Json → Prop := ReflTransGen Reorders

variable {v w : Json}

theorem Reorders.symm (h : Reorders v w) : Reorders w v := by
  induction h with
  | fields h => exact .fields h.symm
  | item before after _ ih => exact .item before after ih
  | value before after key _ ih => exact .value before after key ih

theorem Reordered.symm (h : Reordered v w) : Reordered w v := by
  induction h with
  | refl => exact .refl
  | tail _ hstep ih => exact .head hstep.symm ih

theorem Reordered.trans {u : Json} (h : Reordered u v) (h' : Reordered v w) : Reordered u w :=
  ReflTransGen.trans h h'

theorem Reordered.item (before after : List Json) {v w : Json} (h : Reordered v w) :
    Reordered (.array (before ++ v :: after)) (.array (before ++ w :: after)) := by
  induction h with
  | refl => exact .refl
  | tail _ hstep ih => exact .tail ih (.item before after hstep)

theorem Reordered.value (before after : List (String × Json)) (key : String) {v w : Json} (h : Reordered v w) :
    Reordered (.object (before ++ (key, v) :: after)) (.object (before ++ (key, w) :: after)) := by
  induction h with
  | refl => exact .refl
  | tail _ hstep ih => exact .tail ih (.value before after key hstep)

mutual

theorem reordered_sorted (v : Json) : Reordered v v.sorted :=
  match v with
  | .null | .boolean _ | .number _ | .string _ => .refl
  | .array items => by
    rw [sorted]
    exact reordered_items [] items
  | .object fields => by
    rw [sorted]
    exact (reordered_fields [] fields).trans (.single (.fields (sortByKey_perm _).symm))

theorem reordered_items (before items : List Json) :
    Reordered (.array (before ++ items)) (.array (before ++ sortedItems items)) :=
  match items with
  | [] => .refl
  | v :: items => by
    have hitem := Reordered.item before items (reordered_sorted v)
    have hrest := reordered_items (before ++ [v.sorted]) items
    rw [List.append_assoc, List.append_assoc] at hrest
    exact hitem.trans hrest

theorem reordered_fields (before fields : List (String × Json)) :
    Reordered (.object (before ++ fields)) (.object (before ++ sortedFields fields)) :=
  match fields with
  | [] => .refl
  | (key, v) :: fields => by
    have hvalue := Reordered.value before fields key (reordered_sorted v)
    have hrest := reordered_fields (before ++ [(key, v.sorted)]) fields
    rw [List.append_assoc, List.append_assoc] at hrest
    exact hvalue.trans hrest

end

theorem Same.reordered (h : v.Same w) : Reordered v w := by
  refine (reordered_sorted v).trans ?_
  rw [show v.sorted = w.sorted from h]
  exact (reordered_sorted w).symm

theorem Reorders.same (h : Reorders v w) (hv : v.WellFormed) : w.WellFormed ∧ v.Same w := by
  induction h with
  | @fields fields fields' h =>
    rw [WellFormed, wellFormedFields_iff] at hv
    have hkeys : (fields'.map Prod.fst).Nodup := (h.map Prod.fst).nodup_iff.mp hv.1
    constructor
    · rw [WellFormed, wellFormedFields_iff]
      exact ⟨hkeys, fun p hp => hv.2 p (h.mem_iff.mpr hp)⟩
    · unfold Same
      rw [sorted, sorted, sortedFields_eq, sortedFields_eq]
      refine congrArg Json.object (sortByKeyOf_congr (r := UnitsLe) ?_ (h.map _))
      rw [List.map_map]
      exact hkeys
  | @item before after v w _ ih =>
    rw [WellFormed, wellFormedItems_iff] at hv ⊢
    obtain ⟨hw, hsame⟩ := ih (hv v (by simp))
    constructor
    · intro u hu
      rw [List.mem_append, List.mem_cons] at hu
      obtain hu | rfl | hu := hu
      · exact hv u (by simp [hu])
      · exact hw
      · exact hv u (by simp [hu])
    · unfold Same
      rw [sorted, sorted, sortedItems_eq, sortedItems_eq, List.map_append, List.map_append, List.map_cons,
        List.map_cons, show v.sorted = w.sorted from hsame]
  | @value before after key v w _ ih =>
    rw [WellFormed, wellFormedFields_iff] at hv ⊢
    obtain ⟨hw, hsame⟩ := ih (hv.2 (key, v) (by simp))
    refine ⟨⟨?_, ?_⟩, ?_⟩
    · have hkeys := hv.1
      rw [List.map_append, List.map_cons] at hkeys ⊢
      exact hkeys
    · intro p hp
      rw [List.mem_append, List.mem_cons] at hp
      obtain hp | rfl | hp := hp
      · exact hv.2 p (by simp [hp])
      · exact hw
      · exact hv.2 p (by simp [hp])
    · unfold Same
      rw [sorted, sorted, sortedFields_eq, sortedFields_eq, List.map_append, List.map_append, List.map_cons,
        List.map_cons, show v.sorted = w.sorted from hsame]

theorem Reordered.wellFormed (h : Reordered v w) (hv : v.WellFormed) : w.WellFormed := by
  induction h with
  | refl => exact hv
  | tail _ hstep ih => exact (hstep.same ih).1

theorem Reordered.same (h : Reordered v w) (hv : v.WellFormed) : v.Same w := by
  induction h with
  | refl => rfl
  | tail hsteps hstep ih => exact ih.trans (hstep.same (Reordered.wellFormed hsteps hv)).2

theorem wellFormed_field {value : Json} {key : String} (hv : v.WellFormed) (h : v.field key = some value) :
    value.WellFormed := by
  cases v with
  | object fields =>
    rw [WellFormed, wellFormedFields_iff] at hv
    obtain ⟨p, hp, rfl⟩ := Option.map_eq_some_iff.mp h
    exact hv.2 p (List.mem_of_find?_eq_some hp)
  | _ => cases h

theorem field_eq_some_iff {fields : List (String × Json)} (hkeys : (fields.map Prod.fst).Nodup) {key : String}
    {value : Json} : (Json.object fields).field key = some value ↔ (key, value) ∈ fields := by
  change (fields.find? (fun p => p.1 == key)).map Prod.snd = some value ↔ _
  constructor
  · intro h
    obtain ⟨⟨k, v⟩, hp, rfl⟩ := Option.map_eq_some_iff.mp h
    have hkey : k = key := by simpa using List.find?_some hp
    rw [← hkey]
    exact List.mem_of_find?_eq_some hp
  · intro hmem
    cases hfind : fields.find? (fun p => p.1 == key) with
    | none => exact absurd (BEq.rfl (a := key)) (List.find?_eq_none.mp hfind _ hmem)
    | some p =>
      have hkey : p.1 = key := by simpa using List.find?_some hfind
      have hp : p = (key, value) := List.inj_on_of_nodup_map hkeys (List.mem_of_find?_eq_some hfind) hmem hkey
      rw [Option.map_some, hp]

theorem field_sorted (h : v.WellFormed) (key : String) : v.sorted.field key = (v.field key).map sorted := by
  cases v with
  | object fields =>
    have hkeys : ((JsValue.sortByKey (sortedFields fields)).map Prod.fst).Nodup := by
      refine ((sortByKey_perm _).map Prod.fst).nodup_iff.mpr ?_
      rw [sortedFields_eq, List.map_map]
      exact h.1
    rw [sorted]
    ext value
    rw [Option.map_eq_some_iff, field_eq_some_iff hkeys, (sortByKey_perm _).mem_iff, sortedFields_eq, List.mem_map]
    constructor
    · rintro ⟨⟨k, u⟩, hp, heq⟩
      cases heq
      exact ⟨u, (field_eq_some_iff h.1).mpr hp, rfl⟩
    · rintro ⟨u, hu, rfl⟩
      exact ⟨(key, u), (field_eq_some_iff h.1).mp hu, rfl⟩
  | _ => rfl

end Premise.Js.Json
