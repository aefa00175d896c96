import TestLanes.Log
import TestLanes.Pipeline.Graph
import TestLanes.Report.Tree

/-!
# Builds

How a build ended, and what an archive of builds can be asked about one.

The archive is a record of functions, and the search for results is written against it: which build
comes before another, and where results are kept, is the matter of an instance.  Two instances
follow, a chain of builds in memory and a directory of recorded builds.  Each question gives its
answer with the lines said about it, since reading a build can fail in ways that only a warning
tells.
-/

namespace TestLanes.History

/-- How a build ended. -/
inductive BuildStatus where
  | success
  | unstable
  | failure
  | aborted
  | notBuilt
deriving Repr, DecidableEq

namespace BuildStatus

instance : Inhabited BuildStatus := ⟨notBuilt⟩

def all : List BuildStatus := [success, unstable, failure, aborted, notBuilt]

def name : BuildStatus → String
  | success => "success"
  | unstable => "unstable"
  | failure => "failure"
  | aborted => "aborted"
  | notBuilt => "not-built"

def title : BuildStatus → String
  | success => "Success"
  | unstable => "Unstable"
  | failure => "Failure"
  | aborted => "Aborted"
  | notBuilt => "NotBuilt"

def ofName? (s : String) : Option BuildStatus := all.find? (·.name = s)

/-- Whether results of a build with this outcome can be relied on. -/
def isAccepted : BuildStatus → Bool
  | success | unstable => true
  | failure | aborted | notBuilt => false

end BuildStatus

/-- Why the results of a build cannot be loaded. -/
inductive LoadError where
  | openFile (path : String)
  | parse (path : String)
deriving Repr, DecidableEq

def LoadError.message : LoadError → String
  | .openFile path => "error opening result file `" ++ path ++ "`"
  | .parse path => "error parsing result file `" ++ path ++ "`"

/-- What can be asked about builds of the type `B`. -/
structure Archive (B : Type) where
  name : B → String
  status : B → BuildStatus
  isBuilding : B → Bool
  /-- How many results the build says to have. -/
  claimedCount : B → Option Nat
  /-- The results; none if there are no reports. -/
  load : B → Logged (Except LoadError (Option Report.Tree))
  /-- The build before this one. -/
  previous : B → Logged (Option B)
  /-- The newest build of the branch that the change is made for. -/
  latestOfTarget : B → Logged (Option B)
  /-- The steps of the build, if they are recorded. -/
  graph : B → Logged (Option Pipeline.Graph)

end TestLanes.History
