/-!
# Natural numbers in decimal

Reads a number that has to stay below a limit: an optional plus sign, then digits and nothing else.
Digits are taken from the left, and the first thing that is wrong is reported.
-/

namespace ClassCatalog.Decimal

/-- Why a text is no number below the limit. -/
inductive NumberFault where
  | empty
  | notADigit
  | tooLarge
  deriving DecidableEq, Repr

def NumberFault.message : NumberFault → String
  | empty => "cannot parse integer from empty string"
  | notADigit => "invalid digit found in string"
  | tooLarge => "number too large to fit in target type"

def digitValue (c : Char) : Nat := c.toNat - '0'.toNat

/-- Appends digits to the number read so far. -/
def digitsBelow (limit : Nat) : Nat → List Char → Except NumberFault Nat
  | value, [] => .ok value
  | value, c :: rest =>
    if ¬ c.isDigit then .error .notADigit
    else if value * 10 + digitValue c < limit then
      digitsBelow limit (value * 10 + digitValue c) rest
    else .error .tooLarge

/-- Reads a number below `limit`. -/
def naturalBelow (limit : Nat) : List Char → Except NumberFault Nat
  | [] => .error .empty
  | ['+'] => .error .notADigit
  | '+' :: digits => digitsBelow limit 0 digits
  | digits => digitsBelow limit 0 digits

end ClassCatalog.Decimal
