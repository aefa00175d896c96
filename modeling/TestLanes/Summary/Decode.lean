import TestLanes.Granularity.Basic
import TestLanes.Json.Decode
import TestLanes.Json.Reader
import TestLanes.Summary.Basic

/-!
# Reading summaries

`Summary.read` gives back what `Summary.toJson` shows.  It also takes structures given as arrays and
fields in any order.

A source is told by its kind, so it is read in two steps, first the kind and then what that kind
needs from the rest.  For this its whole value has to be at hand, and a part of it that is
unreadable or nested too deep is a fault even where nothing looks at it.
-/

namespace TestLanes

open Json (Value field? required nullable)

def depthLimit : Nat := 127

def Stats.ofJson? (v : Value) : Option Stats := do
  let fields ← v.structure? fieldNames
  match ← fields.mapM (required Value.natural?) with
  | [entityCount, laneCount, total, minimum, average, maximum, deviation] =>
    some { entityCount, laneCount, total, minimum, average, maximum, deviation }
  | _ => none

/-- The build and the stage of a reference, from an object or an array. -/
def Source.referenceOf? (v : Value) : Option Source := do
  match ← v.structure? ["build", "stage"] with
  | [build, stage] =>
    some (.reference (← required Value.text? build) (← nullable Value.text? stage))
  | _ => none

/-- The source of a kind; `rest` is what is given beside the kind. -/
def Source.ofKind? (kind : String) (rest : Value) : Option Source :=
  match kind, rest with
  | "reference", rest => referenceOf? rest
  | "estimate", .object _ | "estimate", .array [] => some .estimate
  | "none", .object _ | "none", .array [] => some .nothing
  | _, _ => none

/-- A source given by JSON.  All of its parts are read, whether they are used or not. -/
def Source.ofJson? (v : Value) : Option Source :=
  if v.isReadable && v.depth + 1 ≤ depthLimit then
    match v with
    | .object fields => do
      let kind ← required Value.text? (← field? fields "kind")
      ofKind? kind (.object (fields.filter (·.1 ≠ "kind")))
    | .array (.string kind :: items) => ofKind? kind (.array items)
    | _ => none
  else none

def LaneSummary.ofJson? (v : Value) : Option LaneSummary := do
  match ← v.structure? fieldNames with
  | [index, kind, patternCount, path] =>
    some {
      index := ← required Value.natural? index
      kind := ← required (Value.variant? SelectionKind.ofName?) kind
      patternCount := ← required Value.natural? patternCount
      path := ← nullable Value.text? path }
  | _ => none

def Summary.ofJson? (v : Value) : Option Summary := do
  match ← v.structure? fieldNames with
  | [source, granularity, stats, lanes] =>
    some {
      source := ← required Source.ofJson? source
      granularity := ← required Value.text? granularity
      stats := ← nullable Stats.ofJson? stats
      lanes := ← required (Value.items? LaneSummary.ofJson?) lanes }
  | _ => none

def Summary.read (text : String) : Option Summary := (Json.parse text).bind ofJson?

def Granularity.ofJson? (v : Value) : Option Granularity := v.variant? ofName?

end TestLanes
