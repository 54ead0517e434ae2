import Premise.Js.Double
import Premise.Js.KeyOrder

/-!
# What `JSON.parse` reads

A document that is read has no key twice, and its numbers are decimals.
-/

namespace Premise.Js

namespace Json

theorem isDecimal_decimalValue (digits : Nat) (exponent : Int) : IsDecimal (decimalValue digits exponent) := by
  have hpower : decimalValue digits exponent = ((digits : Int) : ℚ) * power 10 exponent := by
    unfold decimalValue power
    cases exponent with
    | ofNat n => simp
    | negSucc n => simp [zpow_negSucc]
  rw [hpower]
  exact isDecimal_mul_power _ (by norm_num) _

theorem isDecimal_readUnsigned {l : List Char} {p : ℚ × List Char} (h : readUnsigned l = some p) : IsDecimal p.1 := by
  unfold readUnsigned at h
  simp only [Option.bind_eq_bind, Option.bind_eq_some_iff] at h
  obtain ⟨whole, -, fraction, -, exponent, -, hp⟩ := h
  cases hp
  exact isDecimal_decimalValue _ _

theorem isDecimal_readNumber {l : List Char} {p : ℚ × List Char} (h : readNumber l = some p) : IsDecimal p.1 := by
  unfold readNumber at h
  split at h
  · obtain ⟨q, hq, rfl⟩ := Option.map_eq_some_iff.mp h
    exact isDecimal_neg (isDecimal_readUnsigned hq)
  · exact isDecimal_readUnsigned h

theorem wellFormed_readLiteral {l : List Char} {p : Json × List Char} (h : readLiteral l = some p) : p.1.WellFormed := by
  unfold readLiteral at h
  split at h
  · cases h
    trivial
  · cases h
    trivial
  · cases h
    trivial
  · obtain ⟨q, hq, rfl⟩ := Option.map_eq_some_iff.mp h
    exact isDecimal_readNumber hq

theorem keys_setField (fields : List (String × Json)) (key : String) (value : Json) :
    (setField fields key value).map Prod.fst
      = if key ∈ fields.map Prod.fst then fields.map Prod.fst else fields.map Prod.fst ++ [key] := by
  unfold setField
  split
  · rw [List.map_map]
    refine List.map_congr_left fun p _ => ?_
    dsimp only [Function.comp]
    split
    · rename_i hkey
      exact hkey.symm
    · rfl
  · simp

/-- The fields that have been read. -/
structure Distinct (fields : List (String × Json)) : Prop where
  keys : (fields.map Prod.fst).Nodup
  values : ∀ p ∈ fields, p.2.WellFormed

theorem Distinct.setField {fields : List (String × Json)} (h : Distinct fields) (key : String) {value : Json}
    (hvalue : value.WellFormed) : Distinct (setField fields key value) where
  keys := by
    rw [keys_setField]
    split
    · exact h.keys
    · rename_i hnew
      exact List.nodup_append.mpr ⟨h.keys, List.nodup_singleton _, by
        intro k hk k' hk' heq
        obtain rfl := List.mem_singleton.mp hk'
        exact hnew (heq ▸ hk)⟩
  values := by
    intro p hp
    unfold Js.setField at hp
    split at hp
    · obtain ⟨q, hq, rfl⟩ := List.mem_map.mp hp
      split
      · exact hvalue
      · exact h.values q hq
    · obtain hp | hp := List.mem_append.mp hp
      · exact h.values p hp
      · obtain rfl := List.mem_singleton.mp hp
        exact hvalue

theorem wellFormedFields_of_forall {fields : List (String × Json)} (h : ∀ p ∈ fields, p.2.WellFormed) :
    WellFormedFields fields := by
  induction fields with
  | nil => trivial
  | cons p fields ih =>
    exact ⟨h p List.mem_cons_self, ih (fun q hq => h q (List.mem_cons_of_mem _ hq))⟩

/-- What the readers of values, items and fields read at one depth. -/
structure Sound (depth : Nat) : Prop where
  value : ∀ l p, readValue depth l = some p → p.1.WellFormed
  items : ∀ l p, readItems depth l = some p → WellFormedItems p.1
  fields : ∀ before l p, Distinct before → readFields depth before l = some p → Distinct p.1

theorem sound (depth : Nat) : Sound depth := by
  induction depth with
  | zero =>
    refine ⟨?_, ?_, ?_⟩
    · intro l p h
      simp [readValue] at h
    · intro l p h
      simp [readItems] at h
    · intro before l p _ h
      simp [readFields] at h
  | succ depth ih =>
    refine ⟨?_, ?_, ?_⟩
    · intro l p h
      unfold readValue at h
      split at h
      · obtain ⟨q, -, rfl⟩ := Option.map_eq_some_iff.mp h
        trivial
      · split at h
        · cases h
          trivial
        · obtain ⟨q, hq, rfl⟩ := Option.map_eq_some_iff.mp h
          exact ih.items _ _ hq
      · split at h
        · cases h
          exact ⟨List.nodup_nil, trivial⟩
        · obtain ⟨q, hq, rfl⟩ := Option.map_eq_some_iff.mp h
          have hfields := ih.fields [] _ _ ⟨List.nodup_nil, List.forall_mem_nil _⟩ hq
          exact ⟨hfields.keys, wellFormedFields_of_forall hfields.values⟩
      · exact wellFormed_readLiteral h
    · intro l p h
      unfold readItems at h
      obtain ⟨q, hq, hrest⟩ := Option.bind_eq_some_iff.mp h
      split at hrest
      · obtain ⟨r, hr, rfl⟩ := Option.map_eq_some_iff.mp hrest
        exact ⟨ih.value _ _ hq, ih.items _ _ hr⟩
      · cases hrest
        exact ⟨ih.value _ _ hq, trivial⟩
      · exact absurd hrest (by simp)
    · intro before l p hbefore h
      unfold readFields at h
      split at h
      · obtain ⟨key, -, h⟩ := Option.bind_eq_some_iff.mp h
        split at h
        · obtain ⟨q, hq, h⟩ := Option.bind_eq_some_iff.mp h
          split at h
          · exact ih.fields _ _ _ (hbefore.setField _ (ih.value _ _ hq)) h
          · cases h
            exact hbefore.setField _ (ih.value _ _ hq)
          · exact absurd h (by simp)
        · exact absurd h (by simp)
      · exact absurd h (by simp)

theorem wellFormed_parseJson {text : List Char} {v : Json} (h : parseJson text = some v) : v.WellFormed := by
  unfold parseJson at h
  obtain ⟨p, hp, hrest⟩ := Option.bind_eq_some_iff.mp h
  split at hrest
  · cases hrest
    exact (sound _).value _ _ hp
  · exact absurd hrest (by simp)

end Json

/-!
# What `JSON.parse` delivers

The values of JSON texts: every numeral stands for a double, or for an infinity when it is beyond their
range. `JSON.stringify` writes an infinity as `null`; what the two are written as does not tell them apart.
-/

inductive Parsed
  | null
  | boolean (b : Bool)
  | number (n : Number)
  | string (s : String)
  | array (items : List Parsed)
  | object (fields : List (String × Parsed))

namespace Json

mutual

def parsed : Json → Parsed
  | .null => .null
  | .boolean b => .boolean b
  | .number q => .number (toDouble q)
  | .string s => .string s
  | .array items => .array (parsedItems items)
  | .object fields => .object (parsedFields fields)

def parsedItems : List Json → List Parsed
  | [] => []
  | v :: items => v.parsed :: parsedItems items

def parsedFields : List (String × Json) → List (String × Parsed)
  | [] => []
  | (k, v) :: fields => (k, v.parsed) :: parsedFields fields

end

end Json

/-- `JSON.parse(text)`; `none` is a `SyntaxError`. -/
def parse (text : List Char) : Option Parsed := (parseJson text).map Json.parsed

namespace Parsed

mutual

/-- The document that `JSON.stringify` writes. -/
def json : Parsed → Json
  | .null => .null
  | .boolean b => .boolean b
  | .number (.finite q) => .number q
  | .number _ => .null
  | .string s => .string s
  | .array items => .array (jsonItems items)
  | .object fields => .object (jsonFields fields)

def jsonItems : List Parsed → List Json
  | [] => []
  | v :: items => v.json :: jsonItems items

def jsonFields : List (String × Parsed) → List (String × Json)
  | [] => []
  | (k, v) :: fields => (k, v.json) :: jsonFields fields

end

mutual

def sorted : Parsed → Parsed
  | .array items => .array (sortedItems items)
  | .object fields => .object (JsValue.sortByKey (sortedFields fields))
  | .null => .null
  | .boolean b => .boolean b
  | .number n => .number n
  | .string s => .string s

def sortedItems : List Parsed → List Parsed
  | [] => []
  | v :: items => v.sorted :: sortedItems items

def sortedFields : List (String × Parsed) → List (String × Parsed)
  | [] => []
  | (k, v) :: fields => (k, v.sorted) :: sortedFields fields

end

/-- The values are the same, up to the order in which objects list their properties. -/
def Same (v w : Parsed) : Prop := v.sorted = w.sorted

mutual

/-- What is written as `null`, in the order of the text. -/
def nulls : Parsed → List Parsed
  | .null => [.null]
  | .number (.finite _) => []
  | .number n => [.number n]
  | .boolean _ => []
  | .string _ => []
  | .array items => nullsItems items
  | .object fields => nullsFields fields

def nullsItems : List Parsed → List Parsed
  | [] => []
  | v :: items => v.nulls ++ nullsItems items

def nullsFields : List (String × Parsed) → List Parsed
  | [] => []
  | (_, v) :: fields => v.nulls ++ nullsFields fields

end

mutual

/-- A value of the language: no object has a key twice, and every finite number is a double. -/
def WellFormed : Parsed → Prop
  | .number (.finite q) => toDouble q = .finite q
  | .array items => WellFormedItems items
  | .object fields => (fields.map Prod.fst).Nodup ∧ WellFormedFields fields
  | _ => True

def WellFormedItems : List Parsed → Prop
  | [] => True
  | v :: items => v.WellFormed ∧ WellFormedItems items

def WellFormedFields : List (String × Parsed) → Prop
  | [] => True
  | (_, v) :: fields => v.WellFormed ∧ WellFormedFields fields

end

/-- Nothing but `null` is written as `null`. -/
def Finite (v : Parsed) : Prop := ∀ w ∈ v.nulls, w = .null

theorem parsedItems_eq (items : List Json) : Json.parsedItems items = items.map Json.parsed := by
  induction items with
  | nil => rfl
  | cons v items ih => rw [Json.parsedItems, ih, List.map_cons]

theorem parsedFields_eq (fields : List (String × Json)) :
    Json.parsedFields fields = fields.map (fun p => (p.1, p.2.parsed)) := by
  induction fields with
  | nil => rfl
  | cons p fields ih => rw [Json.parsedFields, ih, List.map_cons]

theorem jsonItems_eq (items : List Parsed) : jsonItems items = items.map json := by
  induction items with
  | nil => rfl
  | cons v items ih => rw [jsonItems, ih, List.map_cons]

theorem jsonFields_eq (fields : List (String × Parsed)) : jsonFields fields = fields.map (fun p => (p.1, p.2.json)) := by
  induction fields with
  | nil => rfl
  | cons p fields ih => rw [jsonFields, ih, List.map_cons]

theorem sortedItems_eq (items : List Parsed) : sortedItems items = items.map sorted := by
  induction items with
  | nil => rfl
  | cons v items ih => rw [sortedItems, ih, List.map_cons]

theorem sortedFields_eq (fields : List (String × Parsed)) :
    sortedFields fields = fields.map (fun p => (p.1, p.2.sorted)) := by
  induction fields with
  | nil => rfl
  | cons p fields ih => rw [sortedFields, ih, List.map_cons]

theorem nullsItems_eq (items : List Parsed) : nullsItems items = items.flatMap nulls := by
  induction items with
  | nil => rfl
  | cons v items ih => rw [nullsItems, ih, List.flatMap_cons]

theorem nullsFields_eq (fields : List (String × Parsed)) : nullsFields fields = fields.flatMap (fun p => p.2.nulls) := by
  induction fields with
  | nil => rfl
  | cons p fields ih => rw [nullsFields, ih, List.flatMap_cons]

theorem wellFormed_array {items : List Parsed} : (array items).WellFormed ↔ ∀ v ∈ items, v.WellFormed := by
  rw [WellFormed]
  induction items with
  | nil => simp [WellFormedItems]
  | cons v items ih => simp [WellFormedItems, ih]

theorem wellFormed_object {fields : List (String × Parsed)} :
    (object fields).WellFormed ↔ (fields.map Prod.fst).Nodup ∧ ∀ p ∈ fields, p.2.WellFormed := by
  rw [WellFormed]
  refine and_congr_right' ?_
  induction fields with
  | nil => simp [WellFormedFields]
  | cons p fields ih => simp [WellFormedFields, ih]

theorem finite_array {items : List Parsed} : (array items).Finite ↔ ∀ v ∈ items, v.Finite := by
  simp only [Finite, nulls, nullsItems_eq, List.mem_flatMap]
  exact ⟨fun h v hv w hw => h w ⟨v, hv, hw⟩, fun h w ⟨v, hv, hw⟩ => h v hv w hw⟩

theorem finite_object {fields : List (String × Parsed)} : (object fields).Finite ↔ ∀ p ∈ fields, p.2.Finite := by
  simp only [Finite, nulls, nullsFields_eq, List.mem_flatMap]
  exact ⟨fun h p hp w hw => h w ⟨p, hp, hw⟩, fun h w ⟨p, hp, hw⟩ => h p hp w hw⟩

/-- Induction over the values that arrays and objects are made of. -/
@[elab_as_elim]
theorem induct {p : Parsed → Prop} (v : Parsed) (null : p .null) (boolean : ∀ b, p (.boolean b))
    (number : ∀ n, p (.number n)) (string : ∀ s, p (.string s)) (array : ∀ items, (∀ v ∈ items, p v) → p (.array items))
    (object : ∀ fields, (∀ q ∈ fields, p q.2) → p (.object fields)) : p v :=
  @Parsed.rec p (fun items => ∀ v ∈ items, p v) (fun fields => ∀ q ∈ fields, p q.2) (fun q => p q.2) null boolean
    number string array object (List.forall_mem_nil _) (fun _ _ hv hitems => List.forall_mem_cons.mpr ⟨hv, hitems⟩)
    (List.forall_mem_nil _) (fun _ _ hq hfields => List.forall_mem_cons.mpr ⟨hq, hfields⟩) (fun _ _ hv => hv) v

theorem json_sorted (v : Parsed) : v.sorted.json = v.json.sorted := by
  induction v using induct with
  | null | boolean | string => rfl
  | number n => cases n <;> rfl
  | array items ih =>
    simp only [sorted, json, Json.sorted, sortedItems_eq, jsonItems_eq, Json.sortedItems_eq, List.map_map]
    exact congrArg Json.array (List.map_congr_left ih)
  | object fields ih =>
    simp only [sorted, json, Json.sorted, sortedFields_eq, jsonFields_eq, Json.sortedFields_eq, ← sortByKey_map, List.map_map]
    exact congrArg (Json.object ∘ JsValue.sortByKey) (List.map_congr_left fun q hq => congrArg (Prod.mk q.1) (ih q hq))

theorem parsed_sorted (v : Json) : v.sorted.parsed = v.parsed.sorted := by
  induction v using Json.induct with
  | null | boolean | number | string => rfl
  | array items ih =>
    simp only [sorted, Json.parsed, Json.sorted, sortedItems_eq, parsedItems_eq, Json.sortedItems_eq, List.map_map]
    exact congrArg Parsed.array (List.map_congr_left ih)
  | object fields ih =>
    simp only [sorted, Json.parsed, Json.sorted, sortedFields_eq, parsedFields_eq, Json.sortedFields_eq, ← sortByKey_map,
      List.map_map]
    exact congrArg (Parsed.object ∘ JsValue.sortByKey) (List.map_congr_left fun q hq => congrArg (Prod.mk q.1) (ih q hq))

theorem sorted_sorted (v : Parsed) : v.sorted.sorted = v.sorted := by
  induction v using induct with
  | null | boolean | number | string => rfl
  | array items ih =>
    simp only [sorted, sortedItems_eq, List.map_map]
    exact congrArg Parsed.array (List.map_congr_left ih)
  | object fields ih =>
    simp only [sorted, sortedFields_eq, ← sortByKey_map, List.map_map, sortByKey_sortByKey]
    exact congrArg (Parsed.object ∘ JsValue.sortByKey) (List.map_congr_left fun q hq => congrArg (Prod.mk q.1) (ih q hq))

theorem same_sorted (v : Parsed) : v.Same v.sorted := (sorted_sorted v).symm

theorem parsed_json {v : Parsed} (hv : v.WellFormed) (hfinite : v.Finite) : v.json.parsed = v := by
  induction v using induct with
  | null | boolean | string => rfl
  | number n =>
    cases n with
    | finite q => exact congrArg Parsed.number hv
    | nan | infinity => exact absurd (hfinite _ List.mem_cons_self) (by simp)
  | array items ih =>
    rw [wellFormed_array] at hv
    rw [finite_array] at hfinite
    rw [json, Json.parsed, parsedItems_eq, jsonItems_eq, List.map_map]
    exact congrArg Parsed.array
      ((List.map_congr_left fun v hmem => ih v hmem (hv v hmem) (hfinite v hmem)).trans (List.map_id' _))
  | object fields ih =>
    rw [wellFormed_object] at hv
    rw [finite_object] at hfinite
    rw [json, Json.parsed, parsedFields_eq, jsonFields_eq, List.map_map]
    exact congrArg Parsed.object ((List.map_congr_left fun q hmem =>
      congrArg (Prod.mk q.1) (ih q hmem (hv.2 q hmem) (hfinite q hmem))).trans (List.map_id' _))

theorem finite_parsed_json {v : Parsed} (hv : v.WellFormed) : v.json.parsed.Finite := by
  induction v using induct with
  | null => exact fun w hw => List.mem_singleton.mp hw
  | boolean | string => exact List.forall_mem_nil _
  | number n =>
    cases n with
    | finite q =>
      rw [WellFormed] at hv
      rw [json, Json.parsed, hv]
      exact List.forall_mem_nil _
    | nan | infinity => exact fun w hw => List.mem_singleton.mp hw
  | array items ih =>
    rw [wellFormed_array] at hv
    rw [json, Json.parsed, parsedItems_eq, jsonItems_eq, List.map_map, finite_array, List.forall_mem_map]
    exact fun v hmem => ih v hmem (hv v hmem)
  | object fields ih =>
    rw [wellFormed_object] at hv
    rw [json, Json.parsed, parsedFields_eq, jsonFields_eq, List.map_map, finite_object, List.forall_mem_map]
    exact fun q hmem => ih q hmem (hv.2 q hmem)

theorem nulls_sorted_perm (v : Parsed) : v.sorted.nulls.Perm v.nulls := by
  induction v using induct with
  | null | boolean | number | string => exact .refl _
  | array items ih =>
    rw [sorted, nulls, nulls, nullsItems_eq, nullsItems_eq, sortedItems_eq, List.flatMap_map]
    exact List.Perm.flatMap_left _ ih
  | object fields ih =>
    rw [sorted, nulls, nulls, nullsFields_eq, nullsFields_eq]
    refine ((sortByKey_perm (sortedFields fields)).flatMap_right _).trans ?_
    rw [sortedFields_eq, List.flatMap_map]
    exact List.Perm.flatMap_left _ ih

theorem finite_sorted {v : Parsed} : v.sorted.Finite ↔ v.Finite := by
  unfold Finite
  simp only [(nulls_sorted_perm v).mem_iff]

theorem Same.finite {v w : Parsed} (h : v.Same w) : v.Finite ↔ w.Finite := by
  rw [← finite_sorted, h, finite_sorted]

mutual

/-- Values that are written alike have as many nulls, and are the same when their nulls are. -/
theorem json_nulls {v w : Parsed} (h : v.json = w.json) : v.nulls.length = w.nulls.length ∧ (v.nulls = w.nulls → v = w) :=
  match v, w with
  | .null, w => by
    cases w with
    | number n => cases n <;> simp_all [json, nulls]
    | null | boolean | string | array | object => simp_all [json]
  | .boolean b, w => by
    cases w with
    | number n => cases n <;> simp_all [json]
    | null | boolean | string | array | object => simp_all [json, nulls]
  | .number m, w => by
    cases w with
    | number n => cases m <;> cases n <;> simp_all [json, nulls]
    | null | boolean | string | array | object => cases m <;> simp_all [json, nulls]
  | .string s, w => by
    cases w with
    | number n => cases n <;> simp_all [json]
    | null | boolean | string | array | object => simp_all [json, nulls]
  | .array items, w => by
    cases w with
    | array others =>
      obtain ⟨hlength, hsame⟩ := jsonItems_nulls (Json.array.inj h)
      exact ⟨hlength, fun hnulls => congrArg Parsed.array (hsame hnulls)⟩
    | number n => cases n <;> simp_all [json]
    | null | boolean | string | object => simp_all [json]
  | .object fields, w => by
    cases w with
    | object others =>
      obtain ⟨hlength, hsame⟩ := jsonFields_nulls (Json.object.inj h)
      exact ⟨hlength, fun hnulls => congrArg Parsed.object (hsame hnulls)⟩
    | number n => cases n <;> simp_all [json]
    | null | boolean | string | array => simp_all [json]

theorem jsonItems_nulls {items others : List Parsed} (h : jsonItems items = jsonItems others) :
    (nullsItems items).length = (nullsItems others).length ∧ (nullsItems items = nullsItems others → items = others) :=
  match items, others with
  | [], [] => ⟨rfl, fun _ => rfl⟩
  | [], _ :: _ | _ :: _, [] => absurd h (by simp [jsonItems])
  | v :: items, w :: others => by
    obtain ⟨hv, hrest⟩ := List.cons.inj h
    obtain ⟨hlength, hsame⟩ := json_nulls hv
    obtain ⟨hlengths, hothers⟩ := jsonItems_nulls hrest
    refine ⟨by rw [nullsItems, nullsItems, List.length_append, List.length_append, hlength, hlengths], fun hnulls => ?_⟩
    obtain ⟨hfirst, hmore⟩ := List.append_inj hnulls hlength
    rw [hsame hfirst, hothers hmore]

theorem jsonFields_nulls {fields others : List (String × Parsed)} (h : jsonFields fields = jsonFields others) :
    (nullsFields fields).length = (nullsFields others).length ∧
      (nullsFields fields = nullsFields others → fields = others) :=
  match fields, others with
  | [], [] => ⟨rfl, fun _ => rfl⟩
  | [], _ :: _ | _ :: _, [] => absurd h (by simp [jsonFields])
  | (k, v) :: fields, (l, w) :: others => by
    obtain ⟨hp, hrest⟩ := List.cons.inj h
    obtain ⟨rfl, hv⟩ := Prod.ext_iff.mp hp
    obtain ⟨hlength, hsame⟩ := json_nulls hv
    obtain ⟨hlengths, hothers⟩ := jsonFields_nulls hrest
    refine ⟨by rw [nullsFields, nullsFields, List.length_append, List.length_append, hlength, hlengths], fun hnulls => ?_⟩
    obtain ⟨hfirst, hmore⟩ := List.append_inj hnulls hlength
    rw [hsame hfirst, hothers hmore]

end

theorem same_iff {v w : Parsed} : v.Same w ↔ v.json.Same w.json ∧ v.sorted.nulls = w.sorted.nulls := by
  unfold Json.Same
  rw [← json_sorted, ← json_sorted]
  constructor
  · intro h
    exact ⟨congrArg json h, congrArg nulls h⟩
  · rintro ⟨hjson, hnulls⟩
    exact (json_nulls hjson).2 hnulls

theorem wellFormed_json {v : Parsed} (hv : v.WellFormed) : v.json.WellFormed := by
  induction v using induct with
  | null | boolean | string => trivial
  | number n =>
    cases n with
    | finite q => exact isDecimal_toDouble hv
    | nan | infinity => trivial
  | array items ih =>
    rw [wellFormed_array] at hv
    rw [json, Json.WellFormed, Json.wellFormedItems_iff, jsonItems_eq, List.forall_mem_map]
    exact fun v hmem => ih v hmem (hv v hmem)
  | object fields ih =>
    rw [wellFormed_object] at hv
    rw [json, Json.WellFormed, Json.wellFormedFields_iff, jsonFields_eq, List.map_map, List.forall_mem_map]
    exact ⟨hv.1, fun q hmem => ih q hmem (hv.2 q hmem)⟩

theorem wellFormed_parsed_json {v : Json} (hv : v.WellFormed) : v.parsed.json.WellFormed := by
  induction v using Json.induct with
  | null | boolean | string => trivial
  | number q =>
    rw [Json.parsed]
    cases hq : toDouble q with
    | nan | infinity => trivial
    | finite r => exact isDecimal_toDouble hq
  | array items ih =>
    rw [Json.WellFormed, Json.wellFormedItems_iff] at hv
    rw [Json.parsed, json, Json.WellFormed, Json.wellFormedItems_iff, jsonItems_eq, parsedItems_eq, List.map_map,
      List.forall_mem_map]
    exact fun v hmem => ih v hmem (hv v hmem)
  | object fields ih =>
    rw [Json.WellFormed, Json.wellFormedFields_iff] at hv
    rw [Json.parsed, json, Json.WellFormed, Json.wellFormedFields_iff, jsonFields_eq, parsedFields_eq]
    simp only [List.map_map, List.forall_mem_map]
    exact ⟨hv.1, fun q hmem => ih q hmem (hv.2 q hmem)⟩

end Parsed

end Premise.Js
