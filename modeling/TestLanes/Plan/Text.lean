import TestLanes.Json.Writer
import TestLanes.Plan.Basic

/-!
# Plans as text

A plan is shown with one line for each lane, or as JSON on one line or many.

Colours are pairs of texts around a part of a line, both empty where no colours are used, so that
the words of a line are the same in either case.  JSON texts have none.
-/

namespace TestLanes.Plan

inductive Format where
  | lines
  | json
  | jsonPretty
deriving Repr, DecidableEq

/-- What stands around a coloured part of a text. -/
structure Paint where
  before : String := ""
  after : String := ""
deriving Repr, DecidableEq

def Paint.apply (p : Paint) (s : String) : String := p.before ++ s ++ p.after

/-- How parts of a plan's lines are coloured. -/
structure Colours where
  path : Paint := {}
  count : Paint := {}
deriving Repr, DecidableEq

def Colours.vivid : Colours := ⟨⟨"\x1b[36m", "\x1b[0m"⟩, ⟨"\x1b[1m", "\x1b[0m"⟩⟩

/-- The line of a lane. -/
def laneLine (colours : Colours) (directory : Option String) (lane : Nat) (s : Selection) :
    String :=
  let place := match directory with
    | some d => colours.path.apply (Output.pathFor d lane s)
    | none => "lane " ++ toString lane
  let verb := if s.includes then "includes" else "excludes"
  let count := s.patterns.length
  let noun := if count = 1 then "pattern" else "patterns"
  place ++ ": " ++ verb ++ " " ++ colours.count.apply (toString count) ++ " " ++ noun ++ "\n"

def laneLines (colours : Colours) (directory : Option String) (lane : Nat) :
    List Selection → String
  | [] => ""
  | s :: ss => laneLine colours directory lane s ++ laneLines colours directory (lane + 1) ss

def text (p : Plan) (format : Format) (colours : Colours) (directory : Option String) : String :=
  match format with
  | .lines => laneLines colours directory 0 p.selections
  | .json => Json.compact (p.summary directory).toJson ++ "\n"
  | .jsonPretty => Json.pretty (p.summary directory).toJson ++ "\n"

end TestLanes.Plan
