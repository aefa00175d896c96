import TestLanes.Entity.Map

/-!
# Partitions

Entities are placed one by one, the heaviest first and equally heavy ones in the order of their
keys, each in the lane with the smallest load; of lanes with the same load the one with the lowest
number is taken.  The lanes wait in a queue that is ordered in just this way.

The time for placing is that of a queue and not of a scan over all lanes.  That the two come to the
same is proved in `TestLanes.Proofs.Partition.Scan`; the bounds on the loads rest on the queue being
sorted.
-/

namespace TestLanes

/-! ## 1. The queue of lanes

The order is by load and then by number.  No two lanes have one number, so it is a strict order on
the slots of a queue, and the first one is the only smallest one.
-/

/-- A lane with the time placed in it so far. -/
structure Slot where
  load : Millis
  lane : Nat
deriving Repr, DecidableEq

def Slot.before (a b : Slot) : Bool :=
  decide (a.load < b.load) || (decide (a.load = b.load) && decide (a.lane < b.lane))

def enqueue (s : Slot) : List Slot → List Slot
  | [] => [s]
  | t :: ts => if s.before t then s :: t :: ts else t :: enqueue s ts

def freshQueue (n : Nat) : List Slot := (List.range n).map fun lane => ⟨0, lane⟩

/-! ## 2. Placing

The first lane of the queue takes the entity and goes back with its new load.  Three faults are
looked for as the program looks for them; that none of them occurs for an entity map and at least
one lane is a theorem.  The entities come from the map in the order of their keys, and the sort by
time is stable, so equally heavy ones stay in that order.
-/

/-- An entity in its lane. -/
structure Placement where
  entity : Entity
  lane : Nat
deriving Repr, DecidableEq

inductive PartitionError where
  | noLanes
  | emptyQueue
  | placedTwice (key : String) (lane earlier : Nat)
deriving Repr, DecidableEq

def PartitionError.message : PartitionError → String
  | .noLanes => "partition requires at least one lane"
  | .emptyQueue => "heap always contains lane_count > 0 lanes"
  | .placedTwice key lane earlier =>
    "entity `" ++ key ++ "` assigned to lane " ++ toString lane
      ++ ", but already assigned to lane " ++ toString earlier

/-- The lanes in their queue and the entities placed so far, the last one first. -/
structure Placing where
  queue : List Slot
  placed : List Placement
deriving Repr, DecidableEq

/-- Places one entity in the first lane of the queue. -/
def Placing.place (s : Placing) (e : Entity) : Except PartitionError Placing :=
  match s.queue with
  | [] => .error .emptyQueue
  | slot :: rest =>
    match s.placed.find? (·.entity.key = e.key) with
    | some p => .error (.placedTwice e.key slot.lane p.lane)
    | none =>
      .ok ⟨enqueue { slot with load := slot.load + e.duration } rest, ⟨e, slot.lane⟩ :: s.placed⟩

/-- Entities in the order in which they are placed. -/
def heaviestFirst (entities : EntityMap) : List Entity :=
  entities.toList.mergeSort (fun a b => decide (b.duration ≤ a.duration))

/-- Entities in lanes, the heaviest first, and the time of each lane. -/
structure Partition where
  placements : List Placement
  totals : List Millis
deriving Repr, DecidableEq

namespace Partition

def loads (queue : List Slot) : List Millis :=
  (queue.mergeSort (fun a b => decide (a.lane ≤ b.lane))).map Slot.load

/-- Spreads entities over `n` lanes. -/
def compute (entities : EntityMap) (n : Nat) : Except PartitionError Partition :=
  if n = 0 then .error .noLanes
  else do
    let s ← (heaviestFirst entities).foldlM Placing.place ⟨freshQueue n, []⟩
    .ok ⟨s.placed.reverse, loads s.queue⟩

/-! ## 3. Views

What other parts ask a partition for: how many lanes there are, where an entity went, and what a
lane holds.  The number of lanes is that of the totals, as a lane may hold nothing.
-/

def laneCount (p : Partition) : Nat := p.totals.length

def entities (p : Partition) : List Entity := p.placements.map Placement.entity

def laneOf? (p : Partition) (key : String) : Option Nat :=
  (p.placements.find? (·.entity.key = key)).map Placement.lane

/-- The entities of a lane, the heaviest first. -/
def laneEntities (p : Partition) (lane : Nat) : List Entity :=
  (p.placements.filter (·.lane = lane)).map Placement.entity

end Partition

end TestLanes
