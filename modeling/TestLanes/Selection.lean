import TestLanes.Partition.Basic

/-!
# Selections

What a lane is told: a list of patterns to run, or a list of patterns to leave out.  Lane 0 always
leaves out what other lanes run, and so runs tests that nobody knows yet.

A partition is turned into selections in one of two modes.  With inclusions every lane but lane 0
gets the patterns of its own entities; without them every lane gets the patterns of all the entities
of the other lanes, to be left out.  Both lists go through the lanes in order and through the
entities of a lane in order, so that a lane's file is the same in every run.
-/

namespace TestLanes

/-- Whether the patterns of a lane are to be run or to be left out. -/
inductive SelectionKind where
  | inclusion
  | exclusion
deriving Repr, DecidableEq

def SelectionKind.name : SelectionKind → String
  | .inclusion => "include"
  | .exclusion => "exclude"

def SelectionKind.all : List SelectionKind := [.inclusion, .exclusion]

def SelectionKind.ofName? (s : String) : Option SelectionKind := all.find? (·.name = s)

/-- The patterns of one lane. -/
structure Selection where
  kind : SelectionKind
  patterns : List String
deriving Repr, DecidableEq

namespace Selection

def everything : Selection := ⟨.exclusion, []⟩

def includes (s : Selection) : Bool := s.kind = .inclusion

def fileName (s : Selection) (lane : Nat) : String :=
  "split." ++ toString lane ++ "." ++ s.kind.name ++ ".txt"

end Selection

namespace Partition

/-- The entities that a lane's list names: its own ones to be run, the others to be left out. -/
def listed (p : Partition) (kind : SelectionKind) (lane : Nat) : List Entity :=
  (p.placements.filter fun q => decide (q.lane = lane) = (kind = .inclusion)).map Placement.entity

/-- The selection of a lane. -/
def selection (p : Partition) (inclusions : Bool) (lane : Nat) : Selection :=
  let kind := if inclusions && lane != 0 then SelectionKind.inclusion else .exclusion
  ⟨kind, (p.listed kind lane).flatMap Entity.elements⟩

def selections (p : Partition) (inclusions : Bool) : List Selection :=
  (List.range p.laneCount).map (p.selection inclusions)

end Partition

end TestLanes
