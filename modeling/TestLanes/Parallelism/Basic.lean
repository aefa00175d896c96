import TestLanes.Entity.Map
import TestLanes.Text.Blank
import TestLanes.Text.Numeral

/-!
# Parallelism

How many lanes to make: a fixed count, or as many as it takes for a lane to last about so many
minutes.  The texts are `count:N` and `time:M` with `N` and `M` at least one.

The two forms of a text differ in their words and in what they make of the number, and share the
reader (`readForm`); a fault keeps the form that it occurred in, from which its wording is made.
-/

namespace TestLanes

/-- How many lanes to make. -/
inductive Parallelism where
  | count (n : Nat)
  | time (minutes : Nat)
deriving Repr, DecidableEq

namespace Parallelism

/-! ## 1. Number of lanes

A count is cut down to the number of entities.  A time gives the total divided by the length of a
lane and rounded up, but at least one lane; the length is taken as at least a millisecond, and the
product of minutes and milliseconds is cut off at the ceiling.
-/

def minute : Nat := 60000

def divUp (a b : Nat) : Nat := (a + b - 1) / b

/-- The number of lanes for the entities.  A count gives no lane where there is no entity. -/
def lanes (p : Parallelism) (entities : EntityMap) : Nat :=
  match p with
  | .count n => min n entities.size
  | .time minutes =>
    let length := max (Millis.ofNat (minutes * minute)).val 1
    max (divUp entities.total.val length) 1

/-! ## 2. Text

The number behind the colon is an unsigned numeral, and zero is refused after it has been read.
-/

def text : Parallelism → String
  | .count n => "count:" ++ String.ofList (Nat.toDigits 10 n)
  | .time minutes => "time:" ++ String.ofList (Nat.toDigits 10 minutes)

inductive Form where
  | count
  | time
deriving Repr, DecidableEq

def Form.template : Form → String
  | .count => "count:N"
  | .time => "time:M"

def Form.subject : Form → String
  | .count => "lane count"
  | .time => "minutes per lane"

def Form.make : Form → Nat → Parallelism
  | .count, n => .count n
  | .time, n => .time n

/-- Why a text is no parallelism. -/
inductive ReadError where
  | noForm (input : String)
  | noNumeral (form : Form) (input : String) (cause : Text.NumeralError)
  | zero (form : Form)
deriving Repr, DecidableEq

def ReadError.message : ReadError → String
  | .noForm input =>
    "parallelism input '" ++ input ++ "' must begin with \"count:\" or \"time:\""
  | .noNumeral form input cause =>
    "parallelism must be in the format \"" ++ form.template ++ "\":\nfailed to parse "
      ++ form.subject ++ " '" ++ input ++ "' as a positive integer: " ++ cause.message
  | .zero form =>
    "parallelism must be in the format \"" ++ form.template ++ "\":\n" ++ form.subject
      ++ " must be at least 1"

/-- The parallelism of a form and the text after the colon. -/
def readForm (form : Form) (input : List Char) : Except ReadError Parallelism :=
  match Text.readNumeral input with
  | .error cause => .error (.noNumeral form (String.ofList input) cause)
  | .ok 0 => .error (.zero form)
  | .ok (n + 1) => .ok (form.make (n + 1))

def read (s : String) : Except ReadError Parallelism :=
  match Text.dropPrefix? "count:".toList s.toList with
  | some input => readForm .count input
  | none =>
    match Text.dropPrefix? "time:".toList s.toList with
    | some input => readForm .time input
    | none => .error (.noForm s)

end Parallelism

end TestLanes
