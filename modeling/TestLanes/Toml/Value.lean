import TestLanes.Decimal.Binary64

/-!
# TOML values

What a TOML document says.  Points in time are kept as their normal text.

The metadata of builds and the graphs of pipelines are read from these values directly, by the small
decoders below; settings are taken over into values of their own kind first.
-/

namespace TestLanes.Toml

/-- A TOML value; the entries of a table have distinct names. -/
inductive Value where
  | string (s : String)
  | integer (n : Int)
  | real (x : Decimal.Binary64)
  | boolean (b : Bool)
  | moment (text : String)
  | array (items : List Value)
  | table (entries : List (String × Value))
deriving Repr, Inhabited

def get? (entries : List (String × Value)) (name : String) : Option Value :=
  (entries.find? (·.1 = name)).map (·.2)

/-! ## Values as data

A decoder gives nothing for a value of another kind.  `ifGiven` and `required` differ in what a
missing value means.
-/

def Value.text? : Value → Option String
  | .string s => some s
  | _ => none

def Value.boolean? : Value → Option Bool
  | .boolean b => some b
  | _ => none

/-- A natural number below 2^64. -/
def Value.natural? : Value → Option Nat
  | .integer (.ofNat n) => if n < Nat.pow 2 64 then some n else none
  | _ => none

def Value.items? (decode : Value → Option α) : Value → Option (List α)
  | .array items => items.mapM decode
  | _ => none

def Value.isEmpty : Value → Bool
  | .array [] | .table [] => true
  | _ => false

/-- One of several names, as a text or as the only name of a table with an empty value. -/
def Value.variant? (ofName? : String → Option α) : Value → Option α
  | .string s => ofName? s
  | .table [(s, v)] => if v.isEmpty then ofName? s else none
  | _ => none

/-- A value that may be missing but must be right if it is there. -/
def ifGiven (decode : Value → Option α) : Option Value → Option (Option α)
  | none => some none
  | some v => (decode v).map some

def required (decode : Value → Option α) : Option Value → Option α
  | none => none
  | some v => decode v

end TestLanes.Toml
