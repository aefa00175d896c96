import TestLanes.Text.Blank
import TestLanes.Toml.Scalar
import TestLanes.Toml.Text
import TestLanes.Toml.Tree

/-!
# Reading TOML

`parse` gives the entries of a document's top table.  Arrays and inline tables may spread over
lines, end with a comma, and be nested to some depth.

A document is read line by line.  A header opens a table, an assignment adds a value to the table
that was opened last, and the tables grow as `TestLanes.Toml.Tree` lets them.  Bounds on recursion
are taken from the length of the text, which is more than is ever needed.
-/

namespace TestLanes.Toml

def depthLimit : Nat := 80

/-! ## 1. Values

A scalar without quotes ends at the first character that cannot belong to one, except that a date
may be followed by a blank and a time.  The fields of an inline table are added like the lines of a
document, so the rules on keys with points are the same.
-/

/-- What follows a comment in front. -/
def skipComment : List Char → Option (List Char)
  | [] => some []
  | '\r' :: '\n' :: cs => some ('\r' :: '\n' :: cs)
  | c :: cs =>
    if c = '\n' then some (c :: cs) else if isPlain c then skipComment cs else none

/-- What follows blanks, line ends and comments in front.  The first argument bounds the number of
steps. -/
def skipFiller : Nat → List Char → Option (List Char)
  | 0, cs => some cs
  | n + 1, cs =>
    let cs := skipSpaces cs
    match afterNewline? cs with
    | some cs => skipFiller n cs
    | none =>
      match cs with
      | '#' :: cs => (skipComment cs).bind (skipFiller n)
      | cs => some cs

def dropFiller (cs : List Char) : Option (List Char) := skipFiller (cs.length + 1) cs

def endsScalar (c : Char) : Bool :=
  isSpace c || c = '\n' || c = '\r' || c = ',' || c = ']' || c = '}' || c = '#'

/-- The text of a scalar in front.  A date may be followed by a blank and a time. -/
def takeScalar (cs : List Char) : List Char × List Char :=
  let word := cs.takeWhile (!endsScalar ·)
  let rest := cs.dropWhile (!endsScalar ·)
  match takeDate word, rest with
  | some (_, []), ' ' :: c :: cs =>
    if c.isDigit then
      (word ++ ' ' :: (c :: cs).takeWhile (!endsScalar ·), (c :: cs).dropWhile (!endsScalar ·))
    else (word, rest)
  | _, _ => (word, rest)

mutual

/-- The value in front.  The first argument bounds the recursion, the second one is how much deeper
values may be nested. -/
def readValue : Nat → Nat → List Char → Option (Value × List Char)
  | 0, _, _ => none
  | _ + 1, _, '"' :: cs => (readString ('"' :: cs)).map fun (s, rest) =>
    (.string (String.ofList s), rest)
  | _ + 1, _, '\'' :: cs => (readString ('\'' :: cs)).map fun (s, rest) =>
    (.string (String.ofList s), rest)
  | _ + 1, 0, '[' :: _ => none
  | _ + 1, 0, '{' :: _ => none
  | n + 1, depth + 1, '[' :: cs => do
    let (vs, rest) ← readItems n depth (← dropFiller cs)
    some (.array vs, rest)
  | n + 1, depth + 1, '{' :: cs => do
    let (es, rest) ← readFields n depth [] (← dropFiller cs)
    some (.table (valuesOf es), rest)
  | _ + 1, _, cs =>
    let (word, rest) := takeScalar cs
    (readScalar word).map (·, rest)

/-- The items of an array up to its end. -/
def readItems : Nat → Nat → List Char → Option (List Value × List Char)
  | 0, _, _ => none
  | _ + 1, _, ']' :: rest => some ([], rest)
  | n + 1, depth, cs => do
    let (v, cs) ← readValue n depth cs
    match ← dropFiller cs with
    | ',' :: cs => do
      let (vs, rest) ← readItems n depth (← dropFiller cs)
      some (v :: vs, rest)
    | ']' :: rest => some ([v], rest)
    | _ => none

/-- The fields of an inline table up to its end, added to those read so far. -/
def readFields : Nat → Nat → Entries → List Char → Option (Entries × List Char)
  | 0, _, _, _ => none
  | _ + 1, _, es, '}' :: rest => some (es, rest)
  | n + 1, depth, es, cs => do
    let (path, name, cs) ← readKey cs
    match skipSpaces cs with
    | '=' :: cs => do
      let (v, cs) ← readValue n depth (skipSpaces cs)
      let es ← addValue path name v .header es
      match ← dropFiller cs with
      | ',' :: cs => readFields n depth es (← dropFiller cs)
      | '}' :: rest => some (es, rest)
      | _ => none
    | _ => none

end

/-! ## 2. Documents

Behind a header or an assignment only blanks and a comment may stand on the line.
-/

/-- What has been read of a document, and the table that the last header opened. -/
structure DocumentState where
  entries : Entries
  header : List String
deriving Repr

/-- The rest of a line: blanks and a comment at most. -/
def endLine (cs : List Char) : Option (List Char) :=
  let cs := skipSpaces cs
  match cs with
  | [] => some []
  | '#' :: cs => do
    let cs ← skipComment cs
    if cs.isEmpty then some [] else afterNewline? cs
  | cs => afterNewline? cs

def readAssignment (s : DocumentState) (cs : List Char) : Option (DocumentState × List Char) := do
  let (path, name, cs) ← readKey cs
  match skipSpaces cs with
  | '=' :: cs => do
    let cs := skipSpaces cs
    let (v, cs) ← readValue (2 * cs.length + 2) depthLimit cs
    let entries ← addUnder s.header path name v s.entries
    some ({ s with entries }, ← endLine cs)
  | _ => none

def readHeader (s : DocumentState) (cs : List Char) : Option (DocumentState × List Char) := do
  let (path, name, cs) ← readKey cs
  match skipSpaces cs with
  | ']' :: cs => do
    let entries ← openTable path name s.entries
    some (⟨entries, path ++ [name]⟩, ← endLine cs)
  | _ => none

/-- A header of an array of tables, behind its two brackets. -/
def readItemHeader (s : DocumentState) (cs : List Char) :
    Option (DocumentState × List Char) := do
  let (path, name, cs) ← readKey cs
  match skipSpaces cs with
  | ']' :: ']' :: cs => do
    let entries ← openItem path name s.entries
    some (⟨entries, path ++ [name]⟩, ← endLine cs)
  | _ => none

/-- The lines of a document.  The first argument bounds their number. -/
def readLines : Nat → DocumentState → List Char → Option Entries
  | 0, _, _ => none
  | n + 1, s, cs =>
    match skipSpaces cs with
    | [] => some s.entries
    | '[' :: '[' :: cs => do
      let (s, rest) ← readItemHeader s cs
      readLines n s rest
    | '[' :: cs => do
      let (s, rest) ← readHeader s cs
      readLines n s rest
    | c :: cs =>
      if c = '#' ∨ c = '\n' ∨ c = '\r' then do
        readLines n s (← endLine (c :: cs))
      else do
        let (s, rest) ← readAssignment s (c :: cs)
        readLines n s rest

def dropMark : List Char → List Char
  | '\ufeff' :: cs => cs
  | cs => cs

def parse (text : String) : Option (List (String × Value)) :=
  let cs := dropMark text.toList
  (readLines (cs.length + 1) ⟨[], []⟩ cs).map valuesOf

end TestLanes.Toml
