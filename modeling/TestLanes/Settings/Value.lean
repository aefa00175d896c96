import TestLanes.Text.Numeral
import TestLanes.Toml.Value

/-!
# Setting values

What a settings file gives for a key, and how it is taken for a truth value, a number or a text
where one is needed.

Points in time become texts, and integers must fit in 64 bits although a document may hold larger
ones; a file with such an integer is not read at all, wherever it stands.  Taking a value for what
is needed is generous: numbers and words stand for truth values, truth values and texts for numbers,
and anything single for a text.
-/

namespace TestLanes.Settings

open Decimal (Binary64)

inductive Value where
  | nothing
  | boolean (b : Bool)
  | integer (n : Int)
  | real (x : Binary64)
  | text (s : String)
  | array (items : List Value)
  | table (entries : List (String × Value))
deriving Repr, Inhabited

/-- Integers are kept in 64 bits. -/
def inWord (n : Int) : Bool := -(Nat.pow 2 63 : Int) ≤ n && n < (Nat.pow 2 63 : Int)

mutual

/-- A TOML value as a setting; fails on integers out of range. -/
def ofToml? : Toml.Value → Option Value
  | .string s | .moment s => some (.text s)
  | .integer n => if inWord n then some (.integer n) else none
  | .real x => some (.real x)
  | .boolean b => some (.boolean b)
  | .array vs => (itemsOfToml? vs).map .array
  | .table es => (entriesOfToml? es).map .table

def itemsOfToml? : List Toml.Value → Option (List Value)
  | [] => some []
  | v :: vs => do some ((← ofToml? v) :: (← itemsOfToml? vs))

def entriesOfToml? : List (String × Toml.Value) → Option (List (String × Value))
  | [] => some []
  | (k, v) :: es => do some ((k, ← ofToml? v) :: (← entriesOfToml? es))

end

namespace Value

def lowered (s : String) : String := String.ofList (s.toList.map Char.toLower)

/-- The truth value that a word stands for. -/
def word? (s : String) : Option Bool :=
  if ["true", "on", "yes"].contains (lowered s) then some true
  else if ["false", "off", "no"].contains (lowered s) then some false
  else none

/-- A value as a truth value: numbers are false if they are zero, and some words count. -/
def toBoolean? : Value → Option Bool
  | .boolean b => some b
  | .integer n => some (n ≠ 0)
  | .real x => some (!x.isZero)
  | .text s => if s = "1" then some true else if s = "0" then some false else word? s
  | _ => none

/-- A real number as a natural number: rounded, and cut off at both ends. -/
def naturalOfReal : Binary64 → Nat
  | .nan | .infinite true | .finite true _ => 0
  | .infinite false => Text.wordBound - 1
  | .finite false x => min x.round (Text.wordBound - 1)

/-- A value as a natural number. -/
def toNatural? : Value → Option Nat
  | .boolean b => some (if b then 1 else 0)
  | .integer (.ofNat n) => some n
  | .real x => some (naturalOfReal x)
  | .text s =>
    match word? s with
    | some b => some (if b then 1 else 0)
    | none => Text.readNumeral? s
  | _ => none

/-- A value as a text. -/
def toText? : Value → Option String
  | .boolean b => some (if b then "true" else "false")
  | .integer n => some (toString n)
  | .real x => some x.text
  | .text s => some s
  | _ => none

end Value

end TestLanes.Settings
