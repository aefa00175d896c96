import TestLanes.Json.Value
import TestLanes.Parallelism.Basic

/-!
# Given values

Where a parallelism is given as a value of a data format, a text is read as one and a positive
integer `n` stands for `count:n`; nothing else is accepted.

`Given` has the kinds of values that the formats share.  Settings and JSON values are taken over
into it, so the reader and its messages are the same for all formats.
-/

namespace TestLanes.Parallelism

/-- The kinds of values that data formats know. -/
inductive Given where
  | text (s : String)
  | integer (n : Int)
  | boolean (b : Bool)
  | real (x : Decimal.Binary64)
  | nothing
  | sequence
  | table
deriving Repr, DecidableEq

/-- The text of a number that shows that it is no integer. -/
def realText (x : Decimal.Binary64) : String :=
  let s := x.text
  match x with
  | .finite _ _ => if '.' ∈ s.toList then s else s ++ ".0"
  | _ => s

/-- What a value is called in a message. -/
def Given.description : Given → String
  | .text s => "string \"" ++ s ++ "\""
  | .integer n => "integer `" ++ toString n ++ "`"
  | .boolean b => "boolean `" ++ (if b then "true" else "false") ++ "`"
  | .real x => "floating point `" ++ realText x ++ "`"
  | .nothing => "null"
  | .sequence => "sequence"
  | .table => "map"

inductive GivenError where
  | text (cause : ReadError)
  | notPositive (n : Int)
  | wrongKind (value : Given)
deriving Repr, DecidableEq

def expected : String :=
  ", expected a positive integer, or a string of the form \"count:N\" or \"time:M\""

def GivenError.message : GivenError → String
  | .text cause => cause.message
  | .notPositive n => "invalid value: " ++ (Given.integer n).description ++ expected
  | .wrongKind value => "invalid type: " ++ value.description ++ expected

def ofGiven : Given → Except GivenError Parallelism
  | .text s => (read s).mapError .text
  | .integer (.ofNat (n + 1)) => .ok (.count (n + 1))
  | .integer n => .error (.notPositive n)
  | value => .error (.wrongKind value)

def Given.ofJson : Json.Value → Given
  | .string s => .text s
  | .number (.natural n) => .integer n
  | .number (.negative n) => .integer (-n)
  | .number (.real x) => .real x
  | .boolean b => .boolean b
  | .null | .unreadable => .nothing
  | .array _ => .sequence
  | .object _ => .table

def ofJson (v : Json.Value) : Except GivenError Parallelism := ofGiven (.ofJson v)

end TestLanes.Parallelism
