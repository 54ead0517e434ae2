import Premise.Js.JsonText

/-!
# Reading what is written

The text of a well-formed document is read as the document, whatever follows it.
-/

namespace Premise.Js

open Collections

theorem unitChar_toNat {c : Char} : unitChar c.toNat = c := by
  have hrange : c.toNat < 0xD800 ∨ (0xDFFF < c.toNat ∧ c.toNat < 0x110000) := c.valid
  unfold unitChar
  rw [if_neg (by omega)]
  exact Char.ofNat_toNat c

theorem ofUnits_charUnits (c : Char) (units : List Nat) : ofUnits (charUnits c ++ units) = c :: ofUnits units := by
  have hrange : c.toNat < 0xD800 ∨ (0xDFFF < c.toNat ∧ c.toNat < 0x110000) := c.valid
  unfold charUnits
  split_ifs with hsmall
  · rw [List.singleton_append]
    cases units with
    | nil =>
      unfold ofUnits
      rw [unitChar_toNat]
    | cons v units =>
      rw [ofUnits, if_neg (by omega), unitChar_toNat]
  · rw [List.cons_append, List.singleton_append, ofUnits, if_pos (by omega)]
    rw [show 0x10000 + (0xD800 + (c.toNat - 0x10000) / 0x400 - 0xD800) * 0x400
      + (0xDC00 + (c.toNat - 0x10000) % 0x400 - 0xDC00) = c.toNat by omega, Char.ofNat_toNat]

theorem ofUnits_flatMap (l : List Char) : ofUnits (l.flatMap charUnits) = l := by
  induction l with
  | nil => rfl
  | cons c l ih => rw [List.flatMap_cons, ofUnits_charUnits, ih]

theorem readString_small (n : Fin 32) (l : List Char) :
    readString (escapeChar (Char.ofNat n) ++ l) = addUnits (charUnits (Char.ofNat n)) (readString l) := by
  fin_cases n <;> rfl

theorem readString_escapeChar (c : Char) (l : List Char) :
    readString (escapeChar c ++ l) = addUnits (charUnits c) (readString l) := by
  by_cases hsmall : c.toNat < 32
  · obtain ⟨n, rfl⟩ := char_small hsmall
    exact readString_small n l
  by_cases hquote : c = '"'
  · rw [hquote]
    rfl
  by_cases hslash : c = '\\'
  · rw [hslash]
    rfl
  have hne : ∀ d : Char, d.toNat < 32 → c ≠ d := by
    rintro d hd rfl
    exact hsmall hd
  have hesc : escapeChar c = [c] := by
    unfold escapeChar
    rw [if_neg hquote, if_neg hslash, if_neg (by omega), if_neg (by omega),
      if_neg (hne '\n' (by decide)), if_neg (hne '\r' (by decide)), if_neg (hne '\t' (by decide)),
      if_neg hsmall]
  rw [hesc, List.singleton_append, readString]
  · exact if_neg (not_or.mpr ⟨hsmall, hslash⟩)
  · rintro rfl
    exact hquote rfl
  · exact fun _ _ _ _ _ hc => absurd hc hslash
  · exact fun _ _ hc => absurd hc hslash

theorem readString_flatMap (l r : List Char) :
    readString (l.flatMap escapeChar ++ '"' :: r) = some (l.flatMap charUnits, r) := by
  induction l with
  | nil => rfl
  | cons c l ih =>
    rw [List.flatMap_cons, List.append_assoc, readString_escapeChar, ih]
    rfl

theorem readText_jsonString (s : String) (r : List Char) :
    readText (s.toList.flatMap escapeChar ++ '"' :: r) = some (s, r) := by
  unfold readText
  rw [readString_flatMap, Option.map_some, ofUnits_flatMap, String.ofList_toList]

/-! ## Values -/

theorem skip_cons {c : Char} (hc : isJsonSpace c = false) (l : List Char) : skip (c :: l) = c :: l :=
  List.dropWhile_cons_of_neg (by rw [hc]; decide)

theorem space_of_digit {c : Char} (hc : c.isDigit = true ∨ c = '-') : isJsonSpace c = false := by
  by_contra hspace
  rw [Bool.not_eq_false] at hspace
  unfold isJsonSpace at hspace
  simp only [Bool.or_eq_true, decide_eq_true_eq] at hspace
  rcases hspace with ((rfl | rfl) | rfl) | rfl <;> revert hc <;> decide

theorem numberText_head (q : ℚ) : ∃ c l, numberText q = c :: l ∧ (c.isDigit = true ∨ c = '-') := by
  unfold numberText
  split_ifs with hzero hneg
  · exact ⟨'0', [], rfl, Or.inl (by decide)⟩
  · exact ⟨'-', _, rfl, Or.inr rfl⟩
  · obtain ⟨c, l, hlayout, hc⟩ := layout_head (digits_toDigits (decimalOf_ne_zero hzero)) (decimalOf q).2
    exact ⟨c, l, hlayout, Or.inl hc⟩

theorem stringify_head (v : Json) : ∃ c l, v.stringify = c :: l ∧ isJsonSpace c = false ∧ c ≠ ']' ∧ c ≠ '}' := by
  cases v with
  | null => exact ⟨_, _, rfl, by decide, by decide, by decide⟩
  | boolean b => cases b <;> exact ⟨_, _, rfl, by decide, by decide, by decide⟩
  | string | array | object => exact ⟨_, _, rfl, by decide, by decide, by decide⟩
  | number q =>
    obtain ⟨c, l, hlayout, hc⟩ := numberText_head q
    refine ⟨c, l, hlayout, space_of_digit hc, ?_, ?_⟩
    · rintro rfl
      revert hc
      decide
    · rintro rfl
      revert hc
      decide

theorem readValue_number {depth : Nat} {c : Char} {l : List Char} (hc : c.isDigit = true ∨ c = '-') :
    readValue (depth + 1) (c :: l) = (readNumber (c :: l)).map (fun p => (.number p.1, p.2)) := by
  have hne : ∀ d : Char, ¬ (d.isDigit = true ∨ d = '-') → c ≠ d := by
    rintro d hd rfl
    exact hd hc
  rw [readValue, skip_cons (space_of_digit hc)]
  split
  · exact absurd (List.cons.inj ‹_›).1 (hne '"' (by decide))
  · exact absurd (List.cons.inj ‹_›).1 (hne '[' (by decide))
  · exact absurd (List.cons.inj ‹_›).1 (hne '{' (by decide))
  · unfold readLiteral
    split
    · exact absurd (List.cons.inj ‹_›).1 (hne 'n' (by decide))
    · exact absurd (List.cons.inj ‹_›).1 (hne 't' (by decide))
    · exact absurd (List.cons.inj ‹_›).1 (hne 'f' (by decide))
    · rfl

theorem readValue_quote (depth : Nat) (l : List Char) :
    readValue (depth + 1) ('"' :: l) = (readText l).map (fun p => (.string p.1, p.2)) := by
  rw [readValue, skip_cons (by decide)]
  rfl

theorem readValue_items {depth : Nat} {c : Char} {l : List Char} (hspace : isJsonSpace c = false)
    (hc : c ≠ ']') : readValue (depth + 1) ('[' :: c :: l)
      = (readItems depth (c :: l)).map (fun p => (.array p.1, p.2)) := by
  rw [readValue, skip_cons (by decide)]
  simp only []
  rw [skip_cons hspace]
  split
  · exact absurd (List.cons.inj ‹_›).1 hc
  · rfl

theorem readValue_fields {depth : Nat} {c : Char} {l : List Char} (hspace : isJsonSpace c = false)
    (hc : c ≠ '}') : readValue (depth + 1) ('{' :: c :: l)
      = (readFields depth [] (c :: l)).map (fun p => (.object p.1, p.2)) := by
  rw [readValue, skip_cons (by decide)]
  simp only []
  rw [skip_cons hspace]
  split
  · exact absurd (List.cons.inj ‹_›).1 hc
  · rfl

def afterField (depth : Nat) (fields : List (String × Json)) (key : String) (p : Json × List Char) :
    Option (List (String × Json) × List Char) :=
  match skip p.2 with
  | ',' :: l => readFields depth (setField fields key p.1) l
  | '}' :: l => some (setField fields key p.1, l)
  | _ => none

theorem readFields_key (depth : Nat) (fields : List (String × Json)) (key : String) (l : List Char) :
    readFields (depth + 1) fields (jsonString key ++ ':' :: l)
      = (readValue depth l).bind (afterField depth fields key) := by
  rw [jsonString, List.cons_append, List.append_assoc, List.singleton_append, readFields, skip_cons (by decide)]
  show (readText _).bind _ = _
  rw [readText_jsonString, Option.bind_some]
  rw [skip_cons (by decide)]
  rfl

theorem numberEnd_cons {c : Char} (hc : c.isDigit = false ∧ c ≠ '.' ∧ c ≠ 'e' ∧ c ≠ 'E')
    (l : List Char) : NumberEnd (c :: l) := by
  rintro c' hc'
  exact (Option.some.inj hc') ▸ hc

theorem setField_new {fields : List (String × Json)} {key : String} (value : Json)
    (hkey : key ∉ fields.map Prod.fst) : setField fields key value = fields ++ [(key, value)] :=
  if_neg hkey

open Json

mutual

theorem readValue_stringify {v : Json} (hv : v.WellFormed) {depth : Nat}
    (hdepth : v.stringify.length < depth) {r : List Char} (hr : NumberEnd r) :
    readValue depth (v.stringify ++ r) = some (v, r) := by
  obtain ⟨depth, rfl⟩ := Nat.exists_eq_succ_of_ne_zero (Nat.ne_zero_of_lt hdepth)
  match v with
  | .null | .boolean true | .boolean false => rfl
  | .number q =>
    obtain ⟨c, l, hlayout, hc⟩ := numberText_head q
    have hread := readNumber_numberText hv hr
    rw [stringify]
    rw [hlayout, List.cons_append] at hread ⊢
    rw [readValue_number hc, hread]
    rfl
  | .string s =>
    rw [stringify, jsonString, List.cons_append, List.append_assoc, List.singleton_append,
      readValue_quote, readText_jsonString]
    rfl
  | .array [] => rfl
  | .array (w :: items) =>
    rw [WellFormed] at hv
    rw [stringify, List.length_cons, List.length_append, List.length_singleton] at hdepth
    have hread := @readItems_joinItems (w :: items) hv (List.cons_ne_nil _ _) depth (by omega) r
    obtain ⟨c, l, hhead, hspace, hne, -⟩ := stringify_head w
    rw [stringify, List.cons_append, List.append_assoc, List.singleton_append]
    rw [joinItems, hhead, List.cons_append, List.cons_append] at hread ⊢
    rw [readValue_items hspace hne, hread]
    rfl
  | .object [] => rfl
  | .object ((k, w) :: fields) =>
    rw [WellFormed] at hv
    rw [stringify, List.length_cons, List.length_append, List.length_singleton] at hdepth
    have hread := @readFields_joinFields ((k, w) :: fields) hv.2 (List.cons_ne_nil _ _) [] hv.1 depth (by omega) r
    rw [stringify, List.cons_append, List.append_assoc, List.singleton_append]
    rw [joinFields, jsonString, List.cons_append, List.cons_append] at hread ⊢
    rw [readValue_fields (by decide) (by decide), hread]
    rfl

theorem readItems_joinItems {items : List Json} (hitems : WellFormedItems items) (hne : items ≠ [])
    {depth : Nat} (hdepth : (joinItems items).length + 1 < depth) {r : List Char} :
    readItems depth (joinItems items ++ ']' :: r) = some (items, r) := by
  obtain ⟨depth, rfl⟩ := Nat.exists_eq_succ_of_ne_zero (Nat.ne_zero_of_lt hdepth)
  match items with
  | [] => exact absurd rfl hne
  | [v] =>
    rw [joinItems, moreItems, List.append_nil] at hdepth ⊢
    rw [WellFormedItems] at hitems
    rw [readItems, readValue_stringify hitems.1 (by omega) (numberEnd_cons (by decide) r)]
    rfl
  | v :: w :: items =>
    rw [joinItems, moreItems] at hdepth ⊢
    rw [WellFormedItems] at hitems
    have hrest := @readItems_joinItems (w :: items) hitems.2 (List.cons_ne_nil _ _) depth
      (by rw [joinItems]; simp only [List.length_append, List.length_cons] at hdepth ⊢; omega) r
    rw [List.append_assoc, List.cons_append, readItems,
      readValue_stringify hitems.1 (by simp only [List.length_append] at hdepth; omega)
        (numberEnd_cons (by decide) _)]
    rw [joinItems] at hrest
    show (readItems depth _).map _ = _
    rw [hrest]
    rfl

theorem readFields_joinFields {fields : List (String × Json)} (hfields : WellFormedFields fields)
    (hne : fields ≠ []) {before : List (String × Json)}
    (hkeys : ((before ++ fields).map Prod.fst).Nodup) {depth : Nat}
    (hdepth : (joinFields fields).length + 1 < depth) {r : List Char} :
    readFields depth before (joinFields fields ++ '}' :: r) = some (before ++ fields, r) := by
  obtain ⟨depth, rfl⟩ := Nat.exists_eq_succ_of_ne_zero (Nat.ne_zero_of_lt hdepth)
  match fields with
  | [] => exact absurd rfl hne
  | (k, v) :: rest =>
    rw [WellFormedFields] at hfields
    rw [joinFields] at hdepth ⊢
    have hnew : k ∉ before.map Prod.fst := by
      intro hmem
      rw [List.map_append, List.nodup_append] at hkeys
      exact hkeys.2.2 k hmem k List.mem_cons_self rfl
    rw [List.append_assoc, List.cons_append, List.append_assoc, readFields_key]
    match rest with
    | [] =>
      rw [moreFields, List.append_nil] at hdepth
      rw [moreFields, List.nil_append, readValue_stringify hfields.1
        (by simp only [List.length_append, List.length_cons] at hdepth; omega)
        (numberEnd_cons (by decide) r), Option.bind_some]
      rw [← setField_new v hnew]
      rfl
    | (k', w) :: rest =>
      rw [moreFields] at hdepth
      have hrest := @readFields_joinFields ((k', w) :: rest) hfields.2 (List.cons_ne_nil _ _)
        (before ++ [(k, v)]) (by rw [List.append_assoc]; exact hkeys) depth
        (by rw [joinFields]; simp only [List.length_append, List.length_cons] at hdepth ⊢; omega) r
      rw [moreFields, List.cons_append, readValue_stringify hfields.1
        (by simp only [List.length_append, List.length_cons] at hdepth; omega)
        (numberEnd_cons (by decide) _), Option.bind_some]
      rw [← setField_new v hnew, joinFields, setField_new v hnew, List.append_assoc before] at hrest
      rw [← setField_new v hnew] at hrest
      exact hrest

end

theorem parseJson_stringify {v : Json} (hv : v.WellFormed) : parseJson v.stringify = some v := by
  have hread := readValue_stringify (r := []) hv (Nat.lt_succ_self _) nofun
  rw [List.append_nil] at hread
  unfold parseJson
  rw [hread]
  rfl

end Premise.Js
