import Premise.Collections.OrderedMap
import Premise.Js.Date

/-!
# Texts and dates in Python

`str.strip`, the order of strings by code points, and `datetime.fromisoformat` on the date-time texts that the
contracts of the repository admit.
-/

namespace Premise.Python

open Collections Js

/-- `str.isspace()` of one character, by code point. -/
def spaces : List Nat :=
  [0x9, 0xA, 0xB, 0xC, 0xD, 0x1C, 0x1D, 0x1E, 0x1F, 0x20, 0x85, 0xA0, 0x1680, 0x2000, 0x2001, 0x2002, 0x2003, 0x2004,
    0x2005, 0x2006, 0x2007, 0x2008, 0x2009, 0x200A, 0x2028, 0x2029, 0x202F, 0x205F, 0x3000]

/-- `bool(value.strip())`. -/
def nonEmpty (value : String) : Bool := value.toList.any (fun c => decide (c.toNat ∉ spaces))

/-- The code points of a string, by which strings are compared. -/
def codePoints (value : String) : List Nat := value.toList.map Char.toNat

theorem codePoints_injective {a b : String} (h : codePoints a = codePoints b) : a = b := by
  have hinjective : Function.Injective Char.toNat := fun c d hcd => Char.toNat_inj.mp hcd
  exact String.toList_injective (List.map_injective_iff.mpr hinjective h)

/-- `a <= b` on strings. -/
def PointsLe (a b : String) : Prop := codePoints a ≤ codePoints b

instance : DecidableRel PointsLe := fun a b => inferInstanceAs (Decidable (codePoints a ≤ codePoints b))

instance : IsTrans String PointsLe := ⟨fun _ _ _ h1 h2 => le_trans (α := List Nat) h1 h2⟩

instance : Std.Total PointsLe := ⟨fun a b => le_total (codePoints a) (codePoints b)⟩

instance : Std.Antisymm PointsLe := ⟨fun _ _ h1 h2 => codePoints_injective (le_antisymm (α := List Nat) h1 h2)⟩

/-- `sorted(set(values))`. -/
def sortedSet (values : List String) : List String := (unique values).insertionSort PointsLe

/-- The days of a month of the proleptic Gregorian calendar. -/
def daysInMonth (year month : Nat) : Nat :=
  if month = 2 then (if year % 4 = 0 ∧ (year % 100 ≠ 0 ∨ year % 400 = 0) then 29 else 28)
  else if month = 4 ∨ month = 6 ∨ month = 9 ∨ month = 11 then 30
  else 31

/-- The values that `datetime` admits. -/
def validDatetime (p : DateParts) : Bool :=
  decide (1 ≤ p.year ∧ 1 ≤ p.month ∧ p.month ≤ 12 ∧ 1 ≤ p.day ∧ p.day ≤ daysInMonth p.year p.month ∧ p.hour ≤ 23
    ∧ p.minute ≤ 59 ∧ p.second ≤ 59 ∧ p.offset.2.1 ≤ 23 ∧ p.offset.2.2 ≤ 59)

/-- `datetime.fromisoformat(value).timestamp()`, in milliseconds; `none` is a `ValueError`. The seconds that
`timestamp` returns are floating-point numbers, which keep the order of milliseconds. -/
def fromIsoFormat (value : String) : Option Int :=
  (dateParts value).bind (fun p => if validDatetime p then some p.instant else none)

end Premise.Python
