import TestLanes.Log
import TestLanes.Text.Blank
import TestLanes.Text.Numeral

/-!
# Log filters

A filter is a list of rules between commas.  A rule has a level and may have the beginning of a
topic and names of fields; for each line the most specific rule that fits decides, whatever the
order in which they are given.

The rules are kept in the order in which they are to be asked, so a line is decided by the first one
that fits.  A text that is no filter is reported once and otherwise disregarded.
-/

namespace TestLanes.CommandLine

open Text (splitOn dropPrefix? dropSuffix?)

/-! ## 1. Rules

A rule is more specific than another one if its topic is longer, or is as long and the rule names
more fields.  Two rules about the same topic and fields do not stand side by side: the later one
takes the place of the earlier.
-/

/-- A rule of a filter; lines up to a rank are shown. -/
structure Rule where
  topic : Option String := none
  fields : List String := []
  rank : Nat
deriving Repr, DecidableEq

def rankOf : Level → Nat
  | .error => 1
  | .warning => 2
  | .info => 3
  | .debug => 4

/-- Whether a rule is about a line, which has one field. -/
def Rule.fits (r : Rule) (l : LogLine) : Bool :=
  ((r.topic.map fun t => (dropPrefix? t.toList l.topic.toList).isSome).getD true)
    && r.fields.all (· = "message")

/-- The order of two texts or missing texts by length in bytes; missing ones come first. -/
def longer : Option String → Option String → Bool
  | some a, some b => b.utf8ByteSize < a.utf8ByteSize
  | some _, none => true
  | none, _ => false

/-- Whether a rule is more specific than another one: by its topic, then by its fields. -/
def Rule.before (a b : Rule) : Bool :=
  longer a.topic b.topic
    || (!longer b.topic a.topic && b.fields.length < a.fields.length)

/-- Puts a rule behind all that are more specific, in place of the one that is about the same. -/
def addRule (r : Rule) : List Rule → List Rule
  | [] => [r]
  | s :: rs =>
    if s.topic = r.topic ∧ s.fields = r.fields then r :: rs
    else if r.before s then r :: s :: rs
    else s :: addRule r rs

def isShown (rules : List Rule) (l : LogLine) : Bool :=
  match rules.find? (·.fits l) with
  | some r => rankOf l.level ≤ r.rank
  | none => false

/-! ## 2. Reading filters

A rule without an equals sign is a level if it can be one, and else a topic with all its levels.
-/

inductive FilterError where
  | tooManyEquals
  | tooManyFieldLists
  | openFieldList
  | noLevel
deriving Repr, DecidableEq

def FilterError.message : FilterError → String
  | .tooManyEquals =>
    "invalid filter directive: too many '=' in filter directive, expected 0 or 1"
  | .tooManyFieldLists =>
    "invalid filter directive: too many '[\x7b' in filter directive, expected 0 or 1"
  | .openFieldList => "invalid filter directive: expected fields list to end with '\x7d]'"
  | .noLevel =>
    "error parsing level filter: expected one of \"off\", \"error\", \"warn\", \"info\", "
      ++ "\"debug\", \"trace\", or a number 0-5"

def rankNames : List (String × Nat) :=
  [("off", 0), ("error", 1), ("warn", 2), ("info", 3), ("debug", 4), ("trace", 5), ("", 1)]

/-- The rank that a text gives, as a number or by name. -/
def readRank (cs : List Char) : Option Nat :=
  match Text.readNumeral cs with
  | .ok n => if n ≤ 5 then some n else none
  | .error _ => rankNames.lookup (String.ofList (cs.map Char.toLower))

/-- The pieces between the pairs of characters that begin a list of fields. -/
def cutFieldLists : List Char → List (List Char)
  | [] => [[]]
  | '[' :: '\x7b' :: cs => [] :: cutFieldLists cs
  | c :: cs =>
    match cutFieldLists cs with
    | [] => [[c]]
    | piece :: pieces => (c :: piece) :: pieces

/-- A text, from its end on, without all ends of field lists. -/
def dropEnds : List Char → List Char
  | ']' :: '\x7d' :: cs => dropEnds cs
  | cs => cs

/-- The names of a list of fields, behind its beginning. -/
def readFieldNames (cs : List Char) : Except FilterError (List String) :=
  match cs.reverse with
  | ']' :: '\x7d' :: _ =>
    .ok (((splitOn ',' (dropEnds cs.reverse).reverse).map String.ofList).filter (· ≠ ""))
  | _ => .error .openFieldList

/-- The rule of a text in front of an equals sign and one behind it. -/
def readRuleOf (front level : List Char) : Except FilterError Rule := do
  let (topic, fields) ← match cutFieldLists front with
    | [topic] => .ok (topic, [])
    | [topic, list] => (readFieldNames list).map (topic, ·)
    | _ => .error .tooManyFieldLists
  match readRank level with
  | some rank => .ok ⟨some (String.ofList topic), fields, rank⟩
  | none => .error .noLevel

def readRule (cs : List Char) : Except FilterError Rule :=
  match splitOn '=' cs with
  | [front, level] => readRuleOf front level
  | [word] =>
    match readRank word with
    | some rank => .ok { rank }
    | none => .ok ⟨some (String.ofList word), [], 5⟩
  | _ => .error .tooManyEquals

def readFilter (s : String) : Except FilterError (List Rule) := do
  let rules ← (splitOn ',' s.toList).mapM readRule
  .ok (rules.foldl (fun rs r => addRule r rs) [])

end TestLanes.CommandLine
