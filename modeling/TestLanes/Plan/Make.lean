import TestLanes.Estimate.Workspace
import TestLanes.Granularity.Extract
import TestLanes.History.Locator
import TestLanes.Parallelism.Basic
import TestLanes.Plan.Basic

/-!
# Making plans

A plan is made from the results of an earlier build if there are any, else from source files if that
is asked for.  If both give nothing, one lane runs everything.

The functions follow these stages from the inside to the outside.  `spread` turns entities into a
plan, `planFor` takes the case without entities, `planFromFiles` and `planFromBuild` find the
entities, and `planWith` chooses between the two by a search of the archive.  A workspace that
cannot be listed only gives a warning: a plan can always be made without an estimate.
-/

namespace TestLanes

open History (Archive Finder)

def Plan.topic : String := "lanesplit_runner::splitter"

/-- How a plan is made. -/
structure Options where
  parallelism : Parallelism
  granularity : Granularity := .testClass
  inclusions : Bool := false
  stage : Option String := none
  estimate : Bool := false
  depth : Nat := History.defaultDepth
deriving Repr, DecidableEq

inductive PlanError where
  | duration (e : Report.DurationError)
  | partition (e : PartitionError)
  | stats (e : StatsError)
deriving Repr, DecidableEq

def PlanError.message : PlanError → String
  | .duration e => e.message
  | .partition e => e.message
  | .stats e => e.message

namespace Options

def fallback (o : Options) (source : Source) : Plan :=
  ⟨o.granularity, [.everything], none, source⟩

/-- The plan that spreads some entities, and its statistics. -/
def spread (o : Options) (entities : EntityMap) (source : Source) :
    Except PlanError (Plan × Stats) := do
  let lanes := max (o.parallelism.lanes entities) 1
  let partition ← (Partition.compute entities lanes).mapError .partition
  let stats ← partition.stats.mapError .stats
  .ok (⟨o.granularity, partition.selections o.inclusions, some stats, source⟩, stats)

def planFor (o : Options) (entities : EntityMap) (source : Source) :
    Logged (Except PlanError Plan) := do
  if entities.isEmpty then
    .say .info Plan.topic "no test classes were found, so executing everything in one place"
    return .ok (o.fallback source)
  else
    match o.spread entities source with
    | .error e => return .error e
    | .ok (plan, stats) =>
      .say .info Plan.topic (stats.line o.granularity.word)
      return .ok plan

/-- The entities that the workspace lets expect, if they are asked for. -/
def estimated (o : Options) (workspace : Option Estimate.Workspace) : Logged EntityMap :=
  match workspace with
  | none => pure .empty
  | some workspace =>
    if o.estimate then do
      match ← o.granularity.estimate workspace with
      | .ok entities => return entities
      | .error e =>
        .say .warning Plan.topic ("unable to determine tests to run from files: " ++ e.message)
        return .empty
    else pure .empty

def planFromFiles (o : Options) (workspace : Option Estimate.Workspace) :
    Logged (Except PlanError Plan) := do
  .say .info Plan.topic "no record available, try to find test classes"
  let entities ← o.estimated workspace
  o.planFor entities (if entities.isEmpty then .nothing else .estimate)

variable {B : Type}

def planFromBuild (o : Options) (a : Archive B) (located : History.Located B) :
    Logged (Except PlanError Plan) := do
  let located ← match o.stage with
    | some stage => a.narrow located stage
    | none => pure located
  match o.granularity.extract located.tree with
  | .error e => return .error (.duration e)
  | .ok entities => o.planFor entities (.reference (a.name located.build) o.stage)

/-- The plan for a build, with a search of its own depth and finders. -/
def planWith (o : Options) (a : Archive B) (depth : Nat) (finders : List (Finder B)) (current : B)
    (workspace : Option Estimate.Workspace) : Logged (Except PlanError Plan) := do
  match (← a.locate depth finders current).found with
  | some located => o.planFromBuild a located
  | none => o.planFromFiles workspace

/-- The plan for a build. -/
def plan (o : Options) (a : Archive B) (current : B) (workspace : Option Estimate.Workspace) :
    Logged (Except PlanError Plan) :=
  o.planWith a o.depth [a.targetFinder] current workspace

end Options

end TestLanes
