import Premise.Collections.CodeUnits

/-!
# JSON texts that can be told apart

`JSON.stringify` of strings, and of the arrays and objects built from them. An encoding is delimited
when no text that starts with the encoding of a value starts with the encoding of another one, so that
encodings can be put after each other without running together.
-/

namespace Premise.Js

universe u v

/-- What follows the encoding of a value is not taken for a part of it. -/
def Delimited {α : Type u} (enc : α → List Char) : Prop :=
  ∀ a b l m, enc a ++ l = enc b ++ m → a = b ∧ l = m

variable {α : Type u} {β : Type v}

theorem Delimited.injective {enc : α → List Char} (h : Delimited enc) : Function.Injective enc :=
  fun a b hab => (h a b [] [] (by rw [hab])).1

theorem Delimited.labelled {enc : α → List Char} (h : Delimited enc) (label : List Char) :
    Delimited (fun a => label ++ enc a) := by
  intro a b l m hab
  rw [List.append_assoc, List.append_assoc] at hab
  exact h a b l m (List.append_cancel_left hab)

theorem Delimited.pair {enc : α → List Char} {enc' : β → List Char} (h : Delimited enc)
    (h' : Delimited enc') : Delimited (fun p : α × β => enc p.1 ++ enc' p.2) := by
  rintro ⟨a, b⟩ ⟨c, d⟩ l m hab
  rw [List.append_assoc, List.append_assoc] at hab
  obtain ⟨rfl, hrest⟩ := h a c _ _ hab
  obtain ⟨rfl, hlm⟩ := h' b d _ _ hrest
  exact ⟨rfl, hlm⟩

/-- The last two hexadecimal digits of a code unit below 32. -/
def hexPair (n : Nat) : List Char := [(n / 16).digitChar, (n % 16).digitChar]

/-- How `JSON.stringify` writes one character of a string. -/
def escapeChar (c : Char) : List Char :=
  if c = '"' then ['\\', '"']
  else if c = '\\' then ['\\', '\\']
  else if c.toNat = 8 then ['\\', 'b']
  else if c.toNat = 12 then ['\\', 'f']
  else if c = '\n' then ['\\', 'n']
  else if c = '\r' then ['\\', 'r']
  else if c = '\t' then ['\\', 't']
  else if c.toNat < 32 then ['\\', 'u', '0', '0'] ++ hexPair c.toNat
  else [c]

/-- `JSON.stringify(s)`. -/
def jsonString (s : String) : List Char := '"' :: (s.toList.flatMap escapeChar ++ ['"'])

theorem char_small {c : Char} (h : c.toNat < 32) : ∃ n : Fin 32, c = Char.ofNat n := by
  refine ⟨⟨c.toNat, h⟩, ?_⟩
  exact (Char.ofNat_toNat c).symm

def unescapeChar : List Char → Option (Char × List Char)
  | '\\' :: 'b' :: l => some (Char.ofNat 8, l)
  | '\\' :: 'f' :: l => some (Char.ofNat 12, l)
  | '\\' :: 'n' :: l => some ('\n', l)
  | '\\' :: 'r' :: l => some ('\r', l)
  | '\\' :: 't' :: l => some ('\t', l)
  | '\\' :: 'u' :: '0' :: '0' :: h :: h' :: l =>
    ((List.range 32).find? (fun n => hexPair n = [h, h'])).map (fun n => (Char.ofNat n, l))
  | '\\' :: c :: l => some (c, l)
  | '"' :: _ => none
  | c :: l => some (c, l)
  | [] => none

theorem unescapeChar_small (l : List Char) (n : Fin 32) :
    unescapeChar (escapeChar (Char.ofNat n) ++ l) = some (Char.ofNat n, l) := by
  fin_cases n <;> rfl

theorem unescapeChar_escapeChar (c : Char) (l : List Char) : unescapeChar (escapeChar c ++ l) = some (c, l) := by
  by_cases hsmall : c.toNat < 32
  · obtain ⟨n, rfl⟩ := char_small hsmall
    exact unescapeChar_small l n
  · have hne : ∀ d : Char, d.toNat < 32 → c ≠ d := by
      rintro d hd rfl
      exact hsmall hd
    by_cases hquote : c = '"'
    · rw [hquote]
      rfl
    by_cases hslash : c = '\\'
    · rw [hslash]
      rfl
    have hesc : escapeChar c = [c] := by
      unfold escapeChar
      rw [if_neg hquote, if_neg hslash, if_neg (by omega), if_neg (by omega),
        if_neg (hne '\n' (by decide)), if_neg (hne '\r' (by decide)), if_neg (hne '\t' (by decide)),
        if_neg hsmall]
    rw [hesc, List.singleton_append]
    unfold unescapeChar
    split
    all_goals first | rfl | simp_all

theorem escapeChar_ne_quote (c : Char) (l m : List Char) : escapeChar c ++ l ≠ '"' :: m := by
  intro h
  have hread := unescapeChar_escapeChar c l
  rw [h] at hread
  cases hread

theorem flatMap_escapeChar_delimited (l : List Char) : ∀ (l' m m' : List Char),
    l.flatMap escapeChar ++ '"' :: m = l'.flatMap escapeChar ++ '"' :: m' → l = l' ∧ m = m' := by
  induction l with
  | nil =>
    intro l' m m' h
    cases l' with
    | nil => exact ⟨rfl, (List.cons.inj h).2⟩
    | cons c l' =>
      rw [List.flatMap_cons, List.append_assoc] at h
      exact absurd h.symm (escapeChar_ne_quote c _ _)
  | cons c l ih =>
    intro l' m m' h
    rw [List.flatMap_cons, List.append_assoc] at h
    cases l' with
    | nil => exact absurd h (escapeChar_ne_quote c _ _)
    | cons c' l' =>
      rw [List.flatMap_cons, List.append_assoc] at h
      have hread := unescapeChar_escapeChar c (l.flatMap escapeChar ++ '"' :: m)
      rw [h, unescapeChar_escapeChar] at hread
      obtain ⟨rfl, hrest⟩ := Prod.mk.inj (Option.some.inj hread)
      obtain ⟨rfl, hm⟩ := ih l' m m' hrest.symm
      exact ⟨rfl, hm⟩

theorem jsonString_delimited : Delimited jsonString := by
  intro a b l m h
  unfold jsonString at h
  rw [List.cons_append, List.cons_append, List.append_assoc, List.append_assoc] at h
  obtain ⟨heq, hm⟩ := flatMap_escapeChar_delimited _ _ _ _ (List.cons.inj h).2
  exact ⟨String.toList_injective heq, hm⟩

def jsonItems (enc : α → List Char) : List α → List Char
  | [] => [']']
  | [a] => enc a ++ [']']
  | a :: b :: l => enc a ++ ',' :: jsonItems enc (b :: l)

def jsonArray (enc : α → List Char) (l : List α) : List Char := '[' :: jsonItems enc l

theorem jsonItems_delimited {enc : α → List Char} (h : Delimited enc)
    (hstart : ∀ a l m, enc a ++ l ≠ ']' :: m) : Delimited (jsonItems enc) := by
  intro l
  induction l with
  | nil =>
    intro l' m m' heq
    match l' with
    | [] => exact ⟨rfl, (List.cons.inj heq).2⟩
    | [a] =>
      rw [jsonItems, jsonItems, List.append_assoc] at heq
      exact absurd heq.symm (hstart a _ _)
    | a :: b :: l' =>
      rw [jsonItems, jsonItems, List.append_assoc] at heq
      exact absurd heq.symm (hstart a _ _)
  | cons a l ih =>
    intro l' m m' heq
    match l, l' with
    | [], [] =>
      rw [jsonItems, jsonItems, List.append_assoc] at heq
      exact absurd heq (hstart a _ _)
    | b :: l, [] =>
      rw [jsonItems, jsonItems, List.append_assoc] at heq
      exact absurd heq (hstart a _ _)
    | [], [a'] =>
      rw [jsonItems, jsonItems, List.append_assoc, List.append_assoc] at heq
      obtain ⟨rfl, hrest⟩ := h a a' _ _ heq
      exact ⟨rfl, (List.cons.inj hrest).2⟩
    | [], a' :: b' :: l' =>
      rw [jsonItems, jsonItems, List.append_assoc, List.append_assoc] at heq
      obtain ⟨-, hrest⟩ := h a a' _ _ heq
      cases (List.cons.inj hrest).1
    | b :: l, [a'] =>
      rw [jsonItems, jsonItems, List.append_assoc, List.append_assoc] at heq
      obtain ⟨-, hrest⟩ := h a a' _ _ heq
      cases (List.cons.inj hrest).1
    | b :: l, a' :: b' :: l' =>
      rw [jsonItems, jsonItems, List.append_assoc, List.append_assoc] at heq
      obtain ⟨rfl, hrest⟩ := h a a' _ _ heq
      obtain ⟨htail, hm⟩ := ih (b' :: l') m m' (List.cons.inj hrest).2
      exact ⟨by rw [htail], hm⟩

theorem jsonString_ne_bracket (s : String) (l m : List Char) : jsonString s ++ l ≠ ']' :: m := by
  intro h
  cases (List.cons.inj h).1

theorem jsonStrings_delimited : Delimited (jsonArray jsonString) :=
  (jsonItems_delimited jsonString_delimited jsonString_ne_bracket).labelled ['[']

/-- A string or `null`. -/
def jsonNullable : Option String → List Char
  | none => ['n', 'u', 'l', 'l']
  | some s => jsonString s

theorem jsonNullable_delimited : Delimited jsonNullable := by
  rintro (_ | a) (_ | b) l m h
  · exact ⟨rfl, List.append_cancel_left h⟩
  · cases (List.cons.inj h).1
  · cases (List.cons.inj h).1
  · obtain ⟨rfl, hm⟩ := jsonString_delimited a b l m h
    exact ⟨rfl, hm⟩

theorem stringify_strings_injective : Function.Injective (fun l : List String => String.ofList (jsonArray jsonString l)) :=
  fun _ _ h => jsonStrings_delimited.injective (String.ofList_injective h)

/-!
# Values of the language

The values that a caller can pass where the code takes `unknown`, as far as a traversal of own
properties tells them apart.
-/

open Collections

inductive JsNumber
  | nan
  | infinity (negative : Bool)
  | negativeZero
  /-- Any other number, by its text. -/
  | finite (text : String)
deriving DecidableEq

/-- `JSON.stringify` of a number. -/
def JsNumber.json : JsNumber → List Char
  | .nan => "null".toList
  | .infinity _ => "null".toList
  | .negativeZero => "0".toList
  | .finite text => text.toList

inductive JsValue
  | null
  | undefined
  | boolean (b : Bool)
  | number (n : JsNumber)
  | string (s : String)
  | array (items : List JsValue)
  /-- A plain object, by its own properties in their order. -/
  | object (properties : List (String × JsValue))
  /-- An object without enumerable properties of its own, such as a date or a map. -/
  | exotic (identity : Nat)
  /-- A function, a symbol, a bigint, or an object that contains itself. -/
  | unserializable

namespace JsValue

/-- `Object.keys(object).sort()`, with what stands under each key. -/
def sortByKey {α : Type} (properties : List (String × α)) : List (String × α) :=
  properties.insertionSort (fun p q => UnitsLe p.1 q.1)

mutual

/-- The value with the properties of every object in key order. -/
def sorted : JsValue → JsValue
  | .array items => .array (sortedItems items)
  | .object properties => .object (sortByKey (sortedProperties properties))
  | .null => .null
  | .undefined => .undefined
  | .boolean b => .boolean b
  | .number n => .number n
  | .string s => .string s
  | .exotic identity => .exotic identity
  | .unserializable => .unserializable

def sortedItems : List JsValue → List JsValue
  | [] => []
  | v :: items => v.sorted :: sortedItems items

def sortedProperties : List (String × JsValue) → List (String × JsValue)
  | [] => []
  | (k, v) :: properties => (k, v.sorted) :: sortedProperties properties

end

/-- The values are the same, up to the order in which objects list their properties. -/
def Same (v w : JsValue) : Prop := v.sorted = w.sorted

end JsValue

end Premise.Js
