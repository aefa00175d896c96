import TestLanes.Granularity.Basic
import TestLanes.Output.Directory
import TestLanes.Summary.Basic

/-!
# Plans

A plan has a selection for each lane, and tells where its times come from.  Without statistics it
has one lane, which runs everything.

The summary of a plan is what other programs read of it.  It has the number of a lane's patterns and
not the patterns themselves; those are in the lane's file, whose path it names.
-/

namespace TestLanes

/-- What the lanes run, and why. -/
structure Plan where
  granularity : Granularity
  selections : List Selection
  stats : Option Stats
  source : Source
deriving Repr, DecidableEq

namespace Plan

/-- The lanes from number `lane` on, with their files if they are written to a directory. -/
def laneSummaries (directory : Option String) (lane : Nat) :
    List Selection → List LaneSummary
  | [] => []
  | s :: ss =>
    { index := lane
      kind := s.kind
      patternCount := s.patterns.length
      path := directory.map fun d => Output.pathFor d lane s }
      :: laneSummaries directory (lane + 1) ss

def summary (p : Plan) (directory : Option String) : Summary where
  source := p.source
  granularity := p.granularity.name
  stats := p.stats
  lanes := laneSummaries directory 0 p.selections

end Plan

end TestLanes
