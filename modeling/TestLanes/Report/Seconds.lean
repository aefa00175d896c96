import TestLanes.Decimal.Reader
import TestLanes.Text.Blank
import TestLanes.Millis

/-!
# Recorded times

A report gives times in seconds, as decimal numerals that may hold commas between digits.  A time is
read as a 64-bit floating-point number, multiplied by 1000 and cut to whole milliseconds.

A negative zero is a time of zero.  Other negative numbers, infinities and what is no number are
refused; a time beyond the ceiling of milliseconds is cut off there.
-/

namespace TestLanes.Report

open Decimal (Numeral Magnitude)

/-- A number of seconds as whole milliseconds. -/
def millisOfSeconds (seconds : Magnitude) : Millis :=
  match seconds.mul ⟨1000, 0⟩ with
  | some x => Millis.ofNat x.floor
  | none => Millis.ofNat Millis.ceiling

/-- The time that a text gives; none if it is no finite number of at least zero. -/
def readSeconds (text : String) : Option Millis := do
  let numeral ← Numeral.read ((Text.trim text.toList).filter (· ≠ ','))
  let magnitude ← numeral.magnitude
  if numeral.negative && magnitude.m != 0 then none else some (millisOfSeconds magnitude)

end TestLanes.Report
