import Mathlib

/-!
# Thrown errors

What a `throw` carries: the class of the error object and its message.
-/

namespace Premise.Js

/-- The error classes that the modelled code throws. -/
inductive ErrorClass
  | error
  | typeError
  | rangeError
deriving DecidableEq, Repr

/-- A thrown error. -/
structure JsError where
  /-- The constructor of the error object. -/
  cls : ErrorClass
  /-- Its `message`. -/
  message : String
  /-- Its `code`, when the code sets one. -/
  code : Option String := none
deriving DecidableEq, Repr

/-- `new Error(message)`. -/
def JsError.error (message : String) : JsError := { cls := .error, message := message }

/-- `new TypeError(message)`. -/
def JsError.typeError (message : String) : JsError := { cls := .typeError, message := message }

/-- `new RangeError(message)`. -/
def JsError.rangeError (message : String) : JsError := { cls := .rangeError, message := message }

/-!
# Text checks

`trim` on strings, as the input checks of the repository use it.
-/

/-- The white space and line terminators that `trim` removes, by code point. -/
def whitespace : List Nat :=
  [0x9, 0xA, 0xB, 0xC, 0xD, 0x20, 0xA0, 0x1680, 0x2000, 0x2001, 0x2002, 0x2003, 0x2004, 0x2005,
    0x2006, 0x2007, 0x2008, 0x2009, 0x200A, 0x2028, 0x2029, 0x202F, 0x205F, 0x3000, 0xFEFF]

def isWhitespace (c : Char) : Bool := decide (c.toNat ∈ whitespace)

/-- `value.trim() === value`. -/
def isTrimmed (value : String) : Bool :=
  value.toList.head?.all (fun c => !isWhitespace c)
    && value.toList.getLast?.all (fun c => !isWhitespace c)

/-- `value.trim().length > 0`. -/
def nonEmpty (value : String) : Bool := value.toList.any (fun c => !isWhitespace c)

/-- `Number.MAX_SAFE_INTEGER`. -/
def maxSafeInteger : Int := 9007199254740991

/-- `Number.isSafeInteger(value)`, for an integral number. -/
def isSafeInteger (value : Int) : Bool :=
  decide (-maxSafeInteger ≤ value) && decide (value ≤ maxSafeInteger)

/-!
# Words of a text

`trim`, and the texts that `\s+` separates. `\s` matches what `trim` removes.
-/

/-- `value.trim()`. -/
def trim (value : String) : String :=
  String.ofList (((value.toList.dropWhile isWhitespace).reverse.dropWhile isWhitespace).reverse)

/-- `value.split(/\s+/)` of a trimmed text that is not empty. -/
def words (value : String) : List String :=
  ((value.toList.splitOnP isWhitespace).filter (fun word => word ≠ [])).map String.ofList

def collapse : Bool → List Char → List Char
  | _, [] => []
  | inside, c :: rest =>
    if isWhitespace c then (if inside then [] else [' ']) ++ collapse true rest
    else c :: collapse false rest

/-- `value.replace(/\s+/g, " ")`. -/
def collapseSpaces (value : String) : String := String.ofList (collapse false value.toList)

theorem append_toString_injective {text : String} {m n : Nat} (h : text ++ toString m = text ++ toString n) : m = n := by
  have hlist := congrArg String.toList h
  rw [String.toList_append, String.toList_append] at hlist
  have hrepr : m.repr = n.repr := String.toList_injective (List.append_cancel_left hlist)
  have hread := congrArg String.toNat? hrepr
  rw [Nat.toNat?_repr, Nat.toNat?_repr] at hread
  exact Option.some.inj hread

example : words (trim "  a \t b\n") = ["a", "b"] := by decide +kernel

example : collapseSpaces "a \t b  c" = "a b c" := by decide +kernel

/-!
# Numbers

The values of type `number`. Finite ones are exact: sums are not rounded.
-/

inductive Number
  | nan
  | infinity (negative : Bool)
  | finite (value : ℚ)
deriving DecidableEq

namespace Number

/-- `left === right`. -/
def same (left right : Number) : Bool := decide (left ≠ .nan ∧ left = right)

/-- `Number.isFinite(value)`, with the value. -/
def toFinite : Number → Option ℚ
  | .finite value => some value
  | _ => none

/-- `Number.isInteger(value)`, with the value. -/
def toInteger (n : Number) : Option Int :=
  n.toFinite.bind (fun value => if value.den = 1 then some value.num else none)

/-- `Number.isInteger(value) && value >= 0`, with the value. -/
def toNatural (n : Number) : Option Nat :=
  n.toInteger.bind (fun value => if 0 ≤ value then some value.toNat else none)

end Number

end Premise.Js
