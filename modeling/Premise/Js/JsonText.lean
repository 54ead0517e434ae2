import Premise.Js.Document
import Premise.Js.NumberText

/-!
# `JSON.stringify` and `JSON.parse`

The text of a document and the document of a text, by the grammar of JSON. Strings are read as code
units. A document whose objects have no key twice, and whose numbers are decimals, is read back from its
text.
-/

namespace Premise.Js

open Collections

namespace Json

mutual

/-- `JSON.stringify(value)`. -/
def stringify : Json → List Char
  | .null => ['n', 'u', 'l', 'l']
  | .boolean true => ['t', 'r', 'u', 'e']
  | .boolean false => ['f', 'a', 'l', 's', 'e']
  | .number value => numberText value
  | .string s => jsonString s
  | .array items => '[' :: (joinItems items ++ [']'])
  | .object fields => '{' :: (joinFields fields ++ ['}'])

def joinItems : List Json → List Char
  | [] => []
  | v :: items => stringify v ++ moreItems items

def moreItems : List Json → List Char
  | [] => []
  | v :: items => ',' :: (stringify v ++ moreItems items)

def joinFields : List (String × Json) → List Char
  | [] => []
  | (k, v) :: fields => jsonString k ++ ':' :: (stringify v ++ moreFields fields)

def moreFields : List (String × Json) → List Char
  | [] => []
  | (k, v) :: fields => ',' :: (jsonString k ++ ':' :: (stringify v ++ moreFields fields))

end

mutual

/-- No object has a key twice, and every number is a decimal. -/
def WellFormed : Json → Prop
  | .number value => IsDecimal value
  | .array items => WellFormedItems items
  | .object fields => (fields.map Prod.fst).Nodup ∧ WellFormedFields fields
  | _ => True

def WellFormedItems : List Json → Prop
  | [] => True
  | v :: items => v.WellFormed ∧ WellFormedItems items

def WellFormedFields : List (String × Json) → Prop
  | [] => True
  | (_, v) :: fields => v.WellFormed ∧ WellFormedFields fields

end

end Json

def hexValue (c : Char) : Option Nat :=
  if '0' ≤ c ∧ c ≤ '9' then some (c.toNat - 48)
  else if 'a' ≤ c ∧ c ≤ 'f' then some (c.toNat - 87)
  else if 'A' ≤ c ∧ c ≤ 'F' then some (c.toNat - 55)
  else none

def hexUnit (a b c d : Char) : Option Nat := do
  return (((← hexValue a) * 16 + (← hexValue b)) * 16 + (← hexValue c)) * 16 + (← hexValue d)

def escapeUnit : Char → Option Nat
  | '"' => some 34
  | '\\' => some 92
  | '/' => some 47
  | 'b' => some 8
  | 'f' => some 12
  | 'n' => some 10
  | 'r' => some 13
  | 't' => some 9
  | _ => none

def addUnits (units : List Nat) (rest : Option (List Nat × List Char)) :
    Option (List Nat × List Char) :=
  rest.map (fun p => (units ++ p.1, p.2))

def readString : List Char → Option (List Nat × List Char)
  | [] => none
  | '"' :: l => some ([], l)
  | '\\' :: 'u' :: a :: b :: c :: d :: l =>
    (hexUnit a b c d).bind (fun unit => addUnits [unit] (readString l))
  | '\\' :: c :: l => (escapeUnit c).bind (fun unit => addUnits [unit] (readString l))
  | c :: l => if c.toNat < 32 ∨ c = '\\' then none else addUnits (charUnits c) (readString l)

/-- The character of a code unit. A surrogate alone is no character, and is replaced. -/
def unitChar (u : Nat) : Char :=
  if 0xD800 ≤ u ∧ u ≤ 0xDFFF then Char.ofNat 0xFFFD else Char.ofNat u

def ofUnits : List Nat → List Char
  | [] => []
  | [u] => [unitChar u]
  | u :: v :: units =>
    if 0xD800 ≤ u ∧ u ≤ 0xDBFF ∧ 0xDC00 ≤ v ∧ v ≤ 0xDFFF then
      Char.ofNat (0x10000 + (u - 0xD800) * 0x400 + (v - 0xDC00)) :: ofUnits units
    else unitChar u :: ofUnits (v :: units)

def isJsonSpace (c : Char) : Bool := c = ' ' || c = '\t' || c = '\n' || c = '\r'

def skip (l : List Char) : List Char := l.dropWhile isJsonSpace

/-- Set a field of an object: a key that occurs again keeps its place. -/
def setField (fields : List (String × Json)) (key : String) (value : Json) : List (String × Json) :=
  if key ∈ fields.map Prod.fst then fields.map (fun p => if p.1 = key then (key, value) else p)
  else fields ++ [(key, value)]

def readLiteral : List Char → Option (Json × List Char)
  | 'n' :: 'u' :: 'l' :: 'l' :: l => some (.null, l)
  | 't' :: 'r' :: 'u' :: 'e' :: l => some (.boolean true, l)
  | 'f' :: 'a' :: 'l' :: 's' :: 'e' :: l => some (.boolean false, l)
  | l => (readNumber l).map (fun p => (.number p.1, p.2))

def readText (l : List Char) : Option (String × List Char) :=
  (readString l).map (fun p => (String.ofList (ofUnits p.1), p.2))

mutual

/-- Read a value, nested at most `depth` deep. -/
def readValue : Nat → List Char → Option (Json × List Char)
  | 0, _ => none
  | depth + 1, l =>
    match skip l with
    | '"' :: l => (readText l).map (fun p => (.string p.1, p.2))
    | '[' :: l =>
      match skip l with
      | ']' :: l => some (.array [], l)
      | l => (readItems depth l).map (fun p => (.array p.1, p.2))
    | '{' :: l =>
      match skip l with
      | '}' :: l => some (.object [], l)
      | l => (readFields depth [] l).map (fun p => (.object p.1, p.2))
    | l => readLiteral l

def readItems : Nat → List Char → Option (List Json × List Char)
  | 0, _ => none
  | depth + 1, l =>
    (readValue depth l).bind (fun p =>
      match skip p.2 with
      | ',' :: l => (readItems depth l).map (fun q => (p.1 :: q.1, q.2))
      | ']' :: l => some ([p.1], l)
      | _ => none)

/-- Read the fields of an object, up to its closing bracket. -/
def readFields : Nat → List (String × Json) → List Char → Option (List (String × Json) × List Char)
  | 0, _, _ => none
  | depth + 1, fields, l =>
    match skip l with
    | '"' :: l => (readText l).bind (fun key =>
      match skip key.2 with
      | ':' :: l => (readValue depth l).bind (fun p =>
        match skip p.2 with
        | ',' :: l => readFields depth (setField fields key.1 p.1) l
        | '}' :: l => some (setField fields key.1 p.1, l)
        | _ => none)
      | _ => none)
    | _ => none

end

/-- `JSON.parse(text)`; `none` is a `SyntaxError`. -/
def parseJson (text : List Char) : Option Json :=
  (readValue (text.length + 1) text).bind (fun p => if skip p.2 = [] then some p.1 else none)

example : (parseJson " \x7b\"a\" : [1.5e1, true, \"\\u00e9\\n\"], \"b\":-0.25\x7d".toList).map Json.stringify
    = some "\x7b\"a\":[15,true,\"é\\n\"],\"b\":-0.25\x7d".toList := by decide +kernel

end Premise.Js
