import TestLanes.Json.Value
import TestLanes.Partition.Stats
import TestLanes.Selection

/-!
# Summaries

What a plan tells to other programs: where its times come from, its granularity, its statistics and
its lanes.  `toJson` gives the fields in this order.

The names of the fields stand in one list per structure, from which the writer here and the reader
in `TestLanes.Summary.Decode` both take them.
-/

namespace TestLanes

/-- Where the times of a plan come from. -/
inductive Source where
  /-- A recorded build, narrowed to a stage of its pipeline or not. -/
  | reference (build : String) (stage : Option String)
  /-- Source files. -/
  | estimate
  /-- Nowhere. -/
  | nothing
deriving Repr, DecidableEq

/-- One lane of a plan. -/
structure LaneSummary where
  index : Nat
  kind : SelectionKind
  patternCount : Nat
  path : Option String := none
deriving Repr, DecidableEq

/-- A plan without its patterns. -/
structure Summary where
  source : Source
  granularity : String
  stats : Option Stats := none
  lanes : List LaneSummary
deriving Repr, DecidableEq

open Json (Value)

/-! ## Summaries as JSON

A value that is missing is written as null; only the source leaves out what its kind does not have.
-/

def Stats.fieldNames : List String :=
  ["entity-count", "lane-count", "total-ms", "min-ms", "average-ms", "max-ms", "stddev-ms"]

def Stats.numbers (s : Stats) : List Nat :=
  [s.entityCount, s.laneCount, s.total, s.minimum, s.average, s.maximum, s.deviation]

def Stats.toJson (s : Stats) : Value :=
  .object (Stats.fieldNames.zip (s.numbers.map Value.ofNat))

def Source.toJson : Source → Value
  | .reference build stage =>
    .object [("kind", .string "reference"), ("build", .string build), ("stage", .ofOption stage)]
  | .estimate => .object [("kind", .string "estimate")]
  | .nothing => .object [("kind", .string "none")]

def LaneSummary.fieldNames : List String := ["index", "kind", "pattern-count", "path"]

def LaneSummary.toJson (l : LaneSummary) : Value :=
  .object (fieldNames.zip
    [.ofNat l.index, .string l.kind.name, .ofNat l.patternCount, .ofOption l.path])

def Summary.fieldNames : List String := ["source", "granularity", "stats", "lanes"]

def Summary.toJson (s : Summary) : Value :=
  .object (fieldNames.zip
    [s.source.toJson, .string s.granularity, (s.stats.map Stats.toJson).getD .null,
      .array (s.lanes.map LaneSummary.toJson)])

end TestLanes
