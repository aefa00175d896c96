import TestLanes.Entity.Map
import TestLanes.Estimate.SourceKey
import TestLanes.Granularity.Basic
import TestLanes.Log

/-!
# Estimates

Where no results are recorded, the test classes are told from the source files of a workspace, and
all get the same time.

A workspace is anything that lists the files matching some patterns; it can fail, and it can say
something.  Only granularities that run whole classes can be estimated: for test cases a listing of
files tells nothing.  One source file that has no key fails the estimate as a whole.
-/

namespace TestLanes.Estimate

/-- Why a workspace gives no estimate. -/
inductive EstimateError where
  | badGlob
  | walk (root : String)
  | unexpectedLayout (path : String)
deriving Repr, DecidableEq

def EstimateError.message : EstimateError → String
  | .badGlob => "invalid glob pattern"
  | .walk root => "error walking workspace `" ++ root ++ "`"
  | .unexpectedLayout path => "test source `" ++ path ++ "` didn't match expected format"

/-- Lists the files that match one of the patterns, with slashes between directories. -/
abbrev Workspace := List String → Logged (Except EstimateError (List String))

def sourcePatterns : List String :=
  ["**/src/test/java/**/Test*.java", "**/src/test/java/**/*Test.java",
    "**/src/test/java/**/*Tests.java", "**/src/test/java/**/*TestCase.java"]

/-- The class entity of a source file. -/
def sourceEntity (path : String) : Except EstimateError Entity :=
  match sourceKey? path with
  | some key => .ok ⟨key, Entity.estimatedDuration, .testClass⟩
  | none => .error (.unexpectedLayout path)

def ofPaths (paths : List String) : Except EstimateError EntityMap := do
  .ok (.ofList (← paths.mapM sourceEntity))

def classes (workspace : Workspace) : Logged (Except EstimateError EntityMap) := do
  return (← workspace sourcePatterns).bind ofPaths

end Estimate

/-- The entities of a granularity that a workspace lets expect. -/
def Granularity.estimate (g : Granularity) (workspace : Estimate.Workspace) :
    Logged (Except Estimate.EstimateError EntityMap) :=
  if g.canEstimate then Estimate.classes workspace else pure (.ok .empty)

end TestLanes
