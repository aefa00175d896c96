import TestLanes.History.Locator

/-!
# Histories in memory

Chains of builds that are given as they are, each from its newest build back.

A build of such a chain is a record together with the records before it, so that asking for the
previous build needs no table.  Examples and witnesses about searches use these chains; they say
nothing while they are asked.
-/

namespace TestLanes.History

/-- What is recorded about a build. -/
structure Record where
  name : String
  status : BuildStatus := .success
  isBuilding : Bool := false
  claimedCount : Option Nat := none
  /-- The cases of the build; none if there are no reports. -/
  results : Except LoadError (Option (List Report.Case)) := .ok none
  graph : Option Pipeline.Graph := none

/-- A build with the builds before it, the newest one first. -/
structure Position where
  record : Record
  earlier : List Record

namespace Position

def newest? : List Record → Option Position
  | [] => none
  | r :: rs => some ⟨r, rs⟩

def previous? (p : Position) : Option Position := newest? p.earlier

def tree (p : Position) : Except LoadError (Option Report.Tree) :=
  p.record.results.map fun cases => cases.map (Report.Tree.ofCases p.record.name)

def finder (title : String) (chain : List Record) : Finder Position :=
  ⟨title, fun _ => pure (newest? chain)⟩

/-- The archive of such builds; `target` is the chain of the branch that a change is made for. -/
def archive (target : List Record) : Archive Position where
  name p := p.record.name
  status p := p.record.status
  isBuilding p := p.record.isBuilding
  claimedCount p := p.record.claimedCount
  load p := pure p.tree
  previous p := pure p.previous?
  latestOfTarget _ := pure (newest? target)
  graph p := pure p.record.graph

end Position

end TestLanes.History
