import TestLanes.Report.Duration

/-!
# Test cases

One result of a test report: which test of which class it is, how long it took, how it ended, and
the blocks of the pipeline that it ran in, innermost first.

All that is known about results is known by case; trees and totals are made from lists of cases.
-/

namespace TestLanes.Report

inductive Status where
  | passed
  | failed
  | errored
  | skipped
deriving Repr, DecidableEq

def Status.isFailure : Status → Bool
  | .failed | .errored => true
  | .passed | .skipped => false

/-- The result of one test. -/
structure Case where
  className : String
  name : String
  duration : Duration := 0
  status : Status := .passed
  blocks : List String := []
deriving Repr, DecidableEq

def Case.inBlock (block : String) (c : Case) : Bool := c.blocks.contains block

end TestLanes.Report
