import TestLanes.Pipeline.Graph
import TestLanes.Toml.Reader

/-!
# Recorded pipeline graphs

A graph is recorded as a TOML document with an array of nodes.  A node is a table, or an array with
its fields in order.

A node needs an id; a label and parents may be missing.  Whether parents exist and ids are distinct
is not asked here: the search copes with graphs that do not fit together.
-/

namespace TestLanes.Pipeline

open Toml (Value get? ifGiven required)

/-- The ids of a list of parents. -/
def parents? (v : Option Value) : Option (List String) :=
  (ifGiven (Value.items? Value.text?) v).map (·.getD [])

/-- A step given by its fields. -/
def Node.ofFields? (id label parents : Option Value) : Option Node := do
  some ⟨← required Value.text? id, ← ifGiven Value.text? label, ← parents? parents⟩

def Node.ofToml? : Value → Option Node
  | .table es => ofFields? (get? es "id") (get? es "label") (get? es "parents")
  | .array vs => ofFields? vs[0]? vs[1]? vs[2]?
  | _ => none

def Graph.ofToml? (entries : List (String × Value)) : Option Graph := do
  let nodes ← ifGiven (Value.items? Node.ofToml?) (Toml.get? entries "nodes")
  some ⟨nodes.getD []⟩

def Graph.read (text : String) : Option Graph := (Toml.parse text).bind ofToml?

end TestLanes.Pipeline
