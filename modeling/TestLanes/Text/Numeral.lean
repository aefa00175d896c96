/-!
# Unsigned numerals

A numeral is an optional plus sign and one or more decimal digits whose value is below 2^64.
Reading goes from the left, so of two faults the first one counts.

The number that grows too large is found at the digit that makes it so: a text of many digits with a
letter behind them is too large and not ill-formed.  Which of the faults is reported matters, since
its wording reaches the messages about command line arguments and settings.
-/

namespace TestLanes.Text

def wordBound : Nat := Nat.pow 2 64

/-- Why a text is no numeral. -/
inductive NumeralError where
  | empty
  | invalidDigit
  | tooLarge
deriving Repr, DecidableEq

def NumeralError.message : NumeralError → String
  | .empty => "cannot parse integer from empty string"
  | .invalidDigit => "invalid digit found in string"
  | .tooLarge => "number too large to fit in target type"

def digit? (c : Char) : Option Nat :=
  if '0' ≤ c ∧ c ≤ '9' then some (c.toNat - '0'.toNat) else none

def hexDigit? (c : Char) : Option Nat :=
  if '0' ≤ c ∧ c ≤ '9' then some (c.toNat - '0'.toNat)
  else if 'a' ≤ c ∧ c ≤ 'f' then some (c.toNat - 'a'.toNat + 10)
  else if 'A' ≤ c ∧ c ≤ 'F' then some (c.toNat - 'A'.toNat + 10)
  else none

/-- The number written by the digits that follow those worth `value`. -/
def readDigits (value : Nat) : List Char → Except NumeralError Nat
  | [] => .ok value
  | c :: cs =>
    match digit? c with
    | none => .error .invalidDigit
    | some d =>
      if value * 10 + d < wordBound then readDigits (value * 10 + d) cs else .error .tooLarge

/-- The number that a numeral denotes. -/
def readNumeral : List Char → Except NumeralError Nat
  | [] => .error .empty
  | ['+'] => .error .invalidDigit
  | '+' :: cs => readDigits 0 cs
  | cs => readDigits 0 cs

def readNumeral? (s : String) : Option Nat :=
  (readNumeral s.toList).toOption

end TestLanes.Text
