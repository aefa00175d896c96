import TestLanes.Settings.Value
import TestLanes.Text.Blank

/-!
# Layers of settings

Settings lie in layers, and a later layer goes before an earlier one: tables are merged key by key,
anything else is replaced.  A key on the top level may be a way through tables and arrays, such as
`a.b[0]`.

Merging by a way makes what it needs: a table where a name is to be looked up, an array that is long
enough where there is an index.  What stood there and is neither is lost.
-/

namespace TestLanes.Settings

/-! ## 1. Ways

A way is a name and then points with names and brackets with indices.  Only keys on the top level
are read like this, after the document has been read: a quoted key with points in it is a way too.
A key that cannot be read as a way is an ordinary name.
-/

/-- One step into a value. -/
inductive Hop where
  | key (name : String)
  | index (i : Int)
deriving Repr, DecidableEq

def isNameChar (c : Char) : Bool := c.isAlphanum || c = '_' || c = '-'

/-- An index up to its bracket, and what follows that. -/
def readIndex (cs : List Char) : Option (Int × List Char) :=
  let isSpace (c : Char) : Bool := c = ' ' || c = '\t'
  let cs := cs.dropWhile isSpace
  let (negative, cs) := match cs with
    | '-' :: cs => (true, cs)
    | cs => (false, cs)
  let digits := cs.takeWhile (Text.digit? · |>.isSome)
  match Text.readNumeral digits, (cs.drop digits.length).dropWhile isSpace with
  | .ok n, ']' :: rest =>
    if negative then (if n ≤ Nat.pow 2 63 then some (-(n : Int), rest) else none)
    else if n < Nat.pow 2 63 then some ((n : Int), rest) else none
  | _, _ => none

/-- The steps after the first name.  The first argument bounds their number. -/
def readHops : Nat → List Char → Option (List Hop)
  | _, [] => some []
  | 0, _ => none
  | n + 1, '.' :: cs =>
    match cs.takeWhile isNameChar with
    | [] => none
    | name => do
      some (.key (String.ofList name) :: (← readHops n (cs.drop name.length)))
  | n + 1, '[' :: cs => do
    let (i, rest) ← readIndex cs
    some (.index i :: (← readHops n rest))
  | _, _ => none

/-- The way that a key on the top level stands for; a key that is none stands for itself. -/
def readWay (key : String) : String × List Hop :=
  let cs := key.toList
  match cs.takeWhile isNameChar with
  | [] => (key, [])
  | name =>
    match readHops cs.length (cs.drop name.length) with
    | some hops => (String.ofList name, hops)
    | none => (key, [])

/-! ## 2. Merging

The value at the end of a way is changed by a function on values, and merging is one such function.
Keys keep the places of the older layer; new ones come last.
-/

abbrev Layer := List (String × Value)

def get? (entries : Layer) (name : String) : Option Value :=
  (entries.find? (·.1 = name)).map (·.2)

/-- Changes the value of a name; where there is none, `nothing` is changed. -/
def alter (name : String) (f : Value → Value) : Layer → Layer
  | [] => [(name, f .nothing)]
  | (k, v) :: es => if k = name then (k, f v) :: es else (k, v) :: alter name f es

def Value.entries : Value → Layer
  | .table es => es
  | _ => []

def Value.items : Value → List Value
  | .array vs => vs
  | _ => []

/-- Changes an item of an array, which grows as far as it must.  A negative index counts from the
end. -/
def alterItem (i : Int) (f : Value → Value) (vs : List Value) : List Value :=
  let missing := (-(i + vs.length)).toNat
  let vs := if i < 0 then List.replicate missing .nothing ++ vs else vs
  let k := if i < 0 then (i + vs.length).toNat else i.toNat
  let vs := vs ++ List.replicate (k + 1 - vs.length) .nothing
  vs.modify k f

/-- Changes the value at the end of a way. -/
def alterAt (f : Value → Value) : List Hop → Value → Value
  | [], v => f v
  | .key name :: hops, v => .table (alter name (alterAt f hops) v.entries)
  | .index i :: hops, v => .array (alterItem i (alterAt f hops) v.items)

mutual

/-- A value over an older one. -/
def mergeValue (new old : Value) : Value :=
  match new with
  | .table es => .table (mergeEntries es old.entries)
  | v => v

/-- Entries over older ones. -/
def mergeEntries : List (String × Value) → Layer → Layer
  | [], old => old
  | (k, v) :: es, old => mergeEntries es (alter k (mergeValue v) old)

end

/-- A layer over older settings. -/
def Layer.merge (new old : Layer) : Layer :=
  new.foldl (fun old (key, v) =>
    let (name, hops) := readWay key
    alter name (alterAt (mergeValue v) hops) old) old

def Layer.ofToml? (entries : List (String × Toml.Value)) : Option Layer := entriesOfToml? entries

end TestLanes.Settings
