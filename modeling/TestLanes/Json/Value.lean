import TestLanes.Decimal.Binary64

/-!
# JSON values

Objects keep their fields in order and may name a field twice.  A value that is spelled rightly but
denotes nothing, such as half of a surrogate pair or a number out of range, is `unreadable`; it does
no harm where it is not looked at.

A reader of a structure skips the fields it does not know without looking into their strings, so
what is wrong inside such a field is no fault of the text.  Keeping it as a value of its own leaves
that to the reader of the structure.
-/

namespace TestLanes.Json

/-- Numbers: naturals below 2^64, negative integers down to -2^63, and all others. -/
inductive Number where
  | natural (n : Nat)
  | negative (n : Nat)
  | real (x : Decimal.Binary64)
deriving Repr, DecidableEq

inductive Value where
  | null
  | boolean (b : Bool)
  | number (n : Number)
  | string (s : String)
  | array (items : List Value)
  | object (fields : List (String × Value))
  | unreadable
deriving Repr, Inhabited

/-- The integer `n` if it is in range. -/
def Value.ofNat (n : Nat) : Value := .number (.natural n)

def Value.ofOption (s : Option String) : Value :=
  match s with
  | none => .null
  | some s => .string s

mutual

/-- How many arrays and objects stand inside one another. -/
def Value.depth : Value → Nat
  | .array items => depthOfItems items + 1
  | .object fields => depthOfFields fields + 1
  | _ => 0

/-- The largest depth among items. -/
def depthOfItems : List Value → Nat
  | [] => 0
  | v :: vs => max v.depth (depthOfItems vs)

/-- The largest depth among the values of fields. -/
def depthOfFields : List (String × Value) → Nat
  | [] => 0
  | (_, v) :: fs => max v.depth (depthOfFields fs)

end

end TestLanes.Json
