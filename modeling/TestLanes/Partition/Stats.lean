import TestLanes.Partition.Basic

/-!
# Statistics of a partition

Numbers that tell how even the lanes are.  The squares of the deviations are added up in 128 bits,
which some sets of extreme times exceed.

All of them are computed from the totals of the lanes, which are cut off at the ceiling, and the sum
of the totals is cut off once more before it is divided; for times whose exact sum is below the
ceiling nothing is cut off.  The deviation is the square root of the mean square, rounded down at
each of the two steps.
-/

namespace TestLanes

/-- The largest natural number whose square is at most `n`. -/
def floorSqrt (n : Nat) : Nat :=
  if n = 0 then 0
  else
    let r := 2 * floorSqrt (n / 4)
    if (r + 1) * (r + 1) ≤ n then r + 1 else r
termination_by n

/-- The statistics of a partition; times are in milliseconds. -/
structure Stats where
  entityCount : Nat
  laneCount : Nat
  total : Nat
  minimum : Nat
  average : Nat
  maximum : Nat
  deviation : Nat
deriving Repr, DecidableEq

inductive StatsError where
  | sumTooLarge
deriving Repr, DecidableEq

def StatsError.message : StatsError → String
  | .sumTooLarge => "attempt to add with overflow"

namespace Partition

/-! ## Numbers from the totals

The differences are taken between naturals, the larger minus the smaller, since squares do not need
their signs.
-/

def squaredDeviations (totals : List Millis) (average : Nat) : Nat :=
  sumOf (totals.map fun t => Nat.pow (max t.val average - min t.val average) 2)

def smallest (totals : List Millis) : Nat := ((totals.map Millis.val).min?).getD 0

def largest (totals : List Millis) : Nat := ((totals.map Millis.val).max?).getD 0

/-- The statistics of a partition. -/
def stats (p : Partition) : Except StatsError Stats :=
  let total := (Millis.sum p.totals).val
  let average := total / p.laneCount
  let squares := squaredDeviations p.totals average
  if squares < Nat.pow 2 128 then
    .ok {
      entityCount := p.placements.length
      laneCount := p.laneCount
      total
      minimum := smallest p.totals
      average
      maximum := largest p.totals
      deviation := floorSqrt (squares / p.laneCount) }
  else .error .sumTooLarge

end Partition

/-- One line about a partition; `word` says what the entities are. -/
def Stats.line (s : Stats) (word : String) : String :=
  toString s.entityCount ++ " test " ++ word ++ " (" ++ toString s.total ++ "ms) divided into "
    ++ toString s.laneCount ++ " sets. Min=" ++ toString s.minimum ++ "ms, Average="
    ++ toString s.average ++ "ms, Max=" ++ toString s.maximum ++ "ms, stddev="
    ++ toString s.deviation ++ "ms"

end TestLanes
