import TestLanes.Toml.Value

/-!
# Growing tables

A document defines its tables bit by bit.  Each table remembers how it came about, because that
decides whether it may be defined once more or grow further.

All changes go down a path by `descend` and change the table at its end; an array of tables is
entered at its last item.  A table that is only on the way to another one may still get a header of
its own, one that has a header may not, and keys with points extend only tables that such keys have
made.  A change that breaks a rule gives nothing, and then the document is none.
-/

namespace TestLanes.Toml

/-- How a table came about. -/
inductive Origin where
  /-- On the way to a table with a header. -/
  | implied
  /-- By a header of its own. -/
  | header
  /-- By a key with points in it. -/
  | dotted
deriving Repr, DecidableEq

/-- A value that may still grow. -/
inductive Node where
  | fixed (v : Value)
  | table (origin : Origin) (entries : List (String × Node))
  | tables (items : List (List (String × Node)))
deriving Repr, Inhabited

abbrev Entries := List (String × Node)

/-- Changes the entry of a name, or adds it. -/
def alter (name : String) (f : Option Node → Option Node) : Entries → Option Entries
  | [] => (f none).map fun n => [(name, n)]
  | (k, n) :: es =>
    if k = name then (f (some n)).map fun n => (k, n) :: es
    else ((k, n) :: ·) <$> alter name f es

/-- Changes the last item of a list. -/
def alterLast (f : α → Option α) : List α → Option (List α)
  | [] => none
  | [x] => (f x).map fun y => [y]
  | x :: xs => (x :: ·) <$> alterLast f xs

/-- Changes the entries of the table that a path leads to; `f` is told how that table came about.
Tables on the way that are missing come about as `fresh` says. -/
def descend (fresh : Origin) (f : Origin → Entries → Option Entries) :
    List String → Origin → Entries → Option Entries
  | [], origin, es => f origin es
  | name :: path, _, es =>
    alter name (fun
      | none => (descend fresh f path fresh []).map (Node.table fresh)
      | some (.fixed _) => none
      | some (.tables items) =>
        (alterLast (descend fresh f path .header) items).map Node.tables
      | some (.table origin entries) =>
        if fresh = .dotted ∧ origin = .header then none
        else (descend fresh f path origin entries).map (Node.table origin)) es

/-! ## The changes

Four things are done to the tables of a document: a value is added under a key, or under a key below
a header, and a header opens a table or an item of an array of tables.
-/

/-- Adds a value under a key; `path` has the names before the last one. -/
def addValue (path : List String) (name : String) (v : Value) (origin : Origin) (es : Entries) :
    Option Entries :=
  descend .dotted (fun origin es =>
    if origin = .dotted ↔ path ≠ [] then
      alter name (fun
        | none => some (.fixed v)
        | some _ => none) es
    else none) path origin es

def openTable (path : List String) (name : String) (es : Entries) : Option Entries :=
  descend .implied (fun _ es => alter name (fun
    | none => some (.table .header [])
    | some (.table .implied entries) => some (.table .header entries)
    | some _ => none) es) path .header es

def openItem (path : List String) (name : String) (es : Entries) : Option Entries :=
  descend .implied (fun _ es => alter name (fun
    | none => some (.tables [[]])
    | some (.tables items) => some (.tables (items ++ [[]]))
    | some _ => none) es) path .header es

/-- Adds a value to the table that a header has opened. -/
def addUnder (header : List String) (path : List String) (name : String) (v : Value)
    (es : Entries) : Option Entries :=
  descend .implied (addValue path name v) header .header es

/-! ## Tables as values

At the end of a document it does not matter any more how its tables came about.
-/

mutual

def Node.value : Node → Value
  | .fixed v => v
  | .table _ es => .table (valuesOf es)
  | .tables items => .array (valuesOfTables items)

def valuesOf : List (String × Node) → List (String × Value)
  | [] => []
  | (k, n) :: es => (k, n.value) :: valuesOf es

def valuesOfTables : List (List (String × Node)) → List Value
  | [] => []
  | es :: ess => .table (valuesOf es) :: valuesOfTables ess

end

end TestLanes.Toml
