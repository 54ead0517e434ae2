import Premise.Js.JsonScan

/-!
# The texts in a document

A character beyond ASCII stands in the text of a document just where it stands in one of its strings or
keys.
-/

namespace Premise.Js

namespace Json

mutual

def texts : Json → List String
  | .string s => [s]
  | .array items => textsItems items
  | .object fields => textsFields fields
  | .null => []
  | .boolean _ => []
  | .number _ => []

def textsItems : List Json → List String
  | [] => []
  | v :: items => v.texts ++ textsItems items

def textsFields : List (String × Json) → List String
  | [] => []
  | (k, v) :: fields => k :: (v.texts ++ textsFields fields)

end

theorem ne_of_beyond {x c : Char} (hx : 128 ≤ x.toNat) (hc : c.toNat < 128) : x ≠ c := by
  rintro rfl
  omega

theorem mem_escapeChar {x : Char} (hx : 128 ≤ x.toNat) (c : Char) : x ∈ escapeChar c ↔ x = c := by
  have hdigit : ∀ n : Fin 16, (Nat.digitChar n).toNat < 128 := by decide
  have hhex : c.toNat < 32 → x ∉ hexPair c.toNat := by
    intro hsmall hmem
    rcases List.mem_pair.mp hmem with h | h
    · exact ne_of_beyond hx (hdigit ⟨c.toNat / 16, by omega⟩) h
    · exact ne_of_beyond hx (hdigit ⟨c.toNat % 16, by omega⟩) h
  unfold escapeChar
  split_ifs with h1 h2 h3 h4 h5 h6 h7 h8
  · subst h1
    simp [ne_of_beyond hx]
  · subst h2
    simp [ne_of_beyond hx]
  · simp only [List.mem_cons, ne_of_beyond hx (c := '\\') (by decide), ne_of_beyond hx (c := 'b') (by decide),
      List.not_mem_nil, or_self, false_iff]
    rintro rfl
    omega
  · simp only [List.mem_cons, ne_of_beyond hx (c := '\\') (by decide), ne_of_beyond hx (c := 'f') (by decide),
      List.not_mem_nil, or_self, false_iff]
    rintro rfl
    omega
  · subst h5
    simp [ne_of_beyond hx]
  · subst h6
    simp [ne_of_beyond hx]
  · subst h7
    simp [ne_of_beyond hx]
  · have hnot : ¬ x = c := by
      rintro rfl
      omega
    simp [hhex h8, hnot, ne_of_beyond hx]
  · exact List.mem_singleton

theorem mem_jsonString {x : Char} (hx : 128 ≤ x.toNat) (s : String) : x ∈ jsonString s ↔ x ∈ s.toList := by
  unfold jsonString
  simp [mem_escapeChar hx, ne_of_beyond hx (c := '"') (by decide)]

theorem notMem_numberText {x : Char} (hx : 128 ≤ x.toNat) (q : ℚ) : x ∉ numberText q := by
  intro h
  rcases numberChar_numberText h with hdigit | h | h | h | h
  · simp only [Char.isDigit, Bool.and_eq_true, decide_eq_true_eq] at hdigit
    have hhigh : x.toNat ≤ 57 := hdigit.2
    omega
  all_goals exact ne_of_beyond hx (by decide) h

theorem textsItems_eq (items : List Json) : textsItems items = items.flatMap texts := by
  induction items with
  | nil => rfl
  | cons v items ih => rw [textsItems, ih, List.flatMap_cons]

theorem textsFields_eq (fields : List (String × Json)) :
    textsFields fields = fields.flatMap (fun p => p.1 :: p.2.texts) := by
  induction fields with
  | nil => rfl
  | cons p fields ih => rw [textsFields, ih, List.flatMap_cons, List.cons_append]

theorem mem_stringify {x : Char} (hx : 128 ≤ x.toNat) (v : Json) : x ∈ v.stringify ↔ ∃ s ∈ v.texts, x ∈ s.toList := by
  induction v using Json.induct with
  | null => simp [stringify, texts, ne_of_beyond hx]
  | boolean b => cases b <;> simp [stringify, texts, ne_of_beyond hx]
  | number q => simp [stringify, texts, notMem_numberText hx]
  | string s => simp [stringify, texts, mem_jsonString hx]
  | array items ih =>
    simp [stringify, texts, textsItems_eq, joinItems_eq, mem_joined, ne_of_beyond hx]
    grind
  | object fields ih =>
    simp [stringify, texts, textsFields_eq, joinFields_eq, fieldText, mem_joined, mem_jsonString hx, ne_of_beyond hx]
    grind

mutual

theorem texts_sorted_perm (v : Json) : v.sorted.texts.Perm v.texts :=
  match v with
  | .null | .boolean _ | .number _ | .string _ => .refl _
  | .array items => textsItems_sorted_perm items
  | .object fields => by
    rw [sorted, texts, texts, textsFields_eq]
    refine ((sortByKey_perm (sortedFields fields)).flatMap_right _).trans ?_
    rw [← textsFields_eq]
    exact textsFields_sorted_perm fields

theorem textsItems_sorted_perm (items : List Json) : (textsItems (sortedItems items)).Perm (textsItems items) :=
  match items with
  | [] => .refl _
  | v :: items => (texts_sorted_perm v).append (textsItems_sorted_perm items)

theorem textsFields_sorted_perm (fields : List (String × Json)) :
    (textsFields (sortedFields fields)).Perm (textsFields fields) :=
  match fields with
  | [] => .refl _
  | (_, v) :: fields => ((texts_sorted_perm v).append (textsFields_sorted_perm fields)).cons _

end

end Json

end Premise.Js
