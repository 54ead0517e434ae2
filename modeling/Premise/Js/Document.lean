import Premise.Js.Value

/-!
# JSON documents

The values that survive `JSON.parse(JSON.stringify(value))`, and their digests. A digest is taken of the
canonical text of a document, in which the keys of every object are sorted; it is a parameter of what
uses it.
-/

namespace Premise.Js

inductive Json
  | null
  | boolean (b : Bool)
  | number (value : ℚ)
  | string (s : String)
  | array (items : List Json)
  | object (fields : List (String × Json))

namespace Json

/-- Induction over the documents that arrays and objects are made of. -/
@[elab_as_elim]
theorem induct {p : Json → Prop} (v : Json) (null : p .null) (boolean : ∀ b, p (.boolean b))
    (number : ∀ q, p (.number q)) (string : ∀ s, p (.string s)) (array : ∀ items, (∀ v ∈ items, p v) → p (.array items))
    (object : ∀ fields, (∀ q ∈ fields, p q.2) → p (.object fields)) : p v :=
  @Json.rec p (fun items => ∀ v ∈ items, p v) (fun fields => ∀ q ∈ fields, p q.2) (fun q => p q.2) null boolean number
    string array object (List.forall_mem_nil _) (fun _ _ hv hitems => List.forall_mem_cons.mpr ⟨hv, hitems⟩)
    (List.forall_mem_nil _) (fun _ _ hq hfields => List.forall_mem_cons.mpr ⟨hq, hfields⟩) (fun _ _ hv => hv) v

mutual

/-- The document with the fields of every object in key order. -/
def sorted : Json → Json
  | .array items => .array (sortedItems items)
  | .object fields => .object (JsValue.sortByKey (sortedFields fields))
  | .null => .null
  | .boolean b => .boolean b
  | .number value => .number value
  | .string s => .string s

def sortedItems : List Json → List Json
  | [] => []
  | v :: items => v.sorted :: sortedItems items

def sortedFields : List (String × Json) → List (String × Json)
  | [] => []
  | (k, v) :: fields => (k, v.sorted) :: sortedFields fields

end

mutual

def beq : Json → Json → Bool
  | .null, .null => true
  | .boolean b, .boolean c => b == c
  | .number q, .number r => q == r
  | .string s, .string t => s == t
  | .array items, .array others => beqItems items others
  | .object fields, .object others => beqFields fields others
  | _, _ => false

def beqItems : List Json → List Json → Bool
  | [], [] => true
  | v :: items, w :: others => beq v w && beqItems items others
  | _, _ => false

def beqFields : List (String × Json) → List (String × Json) → Bool
  | [], [] => true
  | (k, v) :: fields, (l, w) :: others => k == l && beq v w && beqFields fields others
  | _, _ => false

end

mutual

theorem beq_iff : ∀ v w : Json, beq v w = true ↔ v = w
  | .null, w => by cases w <;> simp [beq]
  | .boolean b, w => by cases w <;> simp [beq]
  | .number q, w => by cases w <;> simp [beq]
  | .string s, w => by cases w <;> simp [beq]
  | .array items, w => by cases w <;> simp [beq, beqItems_iff items]
  | .object fields, w => by cases w <;> simp [beq, beqFields_iff fields]

theorem beqItems_iff : ∀ l m : List Json, beqItems l m = true ↔ l = m
  | [], m => by cases m <;> simp [beqItems]
  | v :: items, m => by cases m <;> simp [beqItems, beq_iff v, beqItems_iff items]

theorem beqFields_iff : ∀ l m : List (String × Json), beqFields l m = true ↔ l = m
  | [], m => by cases m <;> simp [beqFields]
  | (k, v) :: fields, m => by
    cases m <;> simp [beqFields, beq_iff v, beqFields_iff fields, Prod.ext_iff]

end

instance : DecidableEq Json := fun v w => decidable_of_iff _ (beq_iff v w)

def Same (v w : Json) : Prop := v.sorted = w.sorted

/-- `value ?? null`, for a text. -/
def nullable : Option String → Json
  | none => .null
  | some s => .string s

/-- `...(value === undefined ? {} : { [key]: value })`. -/
def optional (key : String) (value : Option Json) : List (String × Json) :=
  value.toList.map (fun v => (key, v))

def strings (values : List String) : Json := .array (values.map .string)

/-- The field `key` of an object. -/
def field (key : String) : Json → Option Json
  | .object fields => (fields.find? (fun p => p.1 == key)).map Prod.snd
  | _ => none

end Json

end Premise.Js
