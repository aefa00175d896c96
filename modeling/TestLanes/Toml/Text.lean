import TestLanes.Text.Numeral

/-!
# TOML texts and keys

Strings in double quotes may have escapes, strings in single quotes have none; three quotes begin a
string over many lines.  A key is a name, in quotes or not, or several names with points between.

Line ends of two characters become one inside a string.  In a string over many lines a backslash at
the end of a line leaves out everything blank up to the next other character, and up to two quotes
may stand directly in front of the closing ones.
-/

namespace TestLanes.Toml

open Text (hexDigit?)

/-! ## 1. Characters

What may stand where, and which characters escapes give.  Numbers of surrogates give no character.
-/

def isSpace (c : Char) : Bool := c = ' ' || c = '\t'

def isPlain (c : Char) : Bool := c = '\t' || (0x20 ≤ c.toNat && c.toNat != 0x7F)

def skipSpaces (cs : List Char) : List Char := cs.dropWhile isSpace

/-- What follows a line end in front. -/
def afterNewline? : List Char → Option (List Char)
  | '\n' :: cs => some cs
  | '\r' :: '\n' :: cs => some cs
  | _ => none

/-- The character with a number that hexadecimal digits give. -/
def scalar? (digits : List Char) : Option Char := do
  let ds ← digits.mapM hexDigit?
  let n := ds.foldl (fun n d => 16 * n + d) 0
  if n < 0xD800 ∨ (0xDFFF < n ∧ n < 0x110000) then some (Char.ofNat n) else none

def escaped? (c : Char) : Option Char :=
  if c = '"' ∨ c = '\\' then some c
  else if c = 'b' then some '\x08'
  else if c = 't' then some '\t'
  else if c = 'n' then some '\n'
  else if c = 'f' then some '\x0c'
  else if c = 'r' then some '\r'
  else if c = 'e' then some '\x1b'
  else none

/-! ## 2. Strings

Each reader takes what stands behind the opening quotes and gives the string with what follows its
closing quotes.
-/

/-- Whether only blanks stand in front of the next line end. -/
def blankToNewline (cs : List Char) : Bool := (afterNewline? (skipSpaces cs)).isSome

/-- One more character in front of a string. -/
def consChar (c : Char) (r : Option (List Char × List Char)) : Option (List Char × List Char) :=
  r.map fun (s, rest) => (c :: s, rest)

/-- Up to two quotes in front, which belong to the string that ends here. -/
def takeQuotes (quote : Char) : List Char → List Char × List Char
  | [] => ([], [])
  | [c] => if c = quote then ([c], []) else ([], [c])
  | c :: d :: cs =>
    if c = quote then
      if d = quote then ([c, d], cs) else ([c], d :: cs)
    else ([], c :: d :: cs)

/-- A string with escapes up to its end.  `long` tells that it is one over many lines, `skip` that
blanks and line ends are left out up to the next other character. -/
def readEscaped (long skip : Bool) : List Char → Option (List Char × List Char)
  | [] => none
  | '\\' :: 'u' :: a :: b :: c :: d :: cs => do
    let x ← scalar? [a, b, c, d]
    consChar x (readEscaped long false cs)
  | '\\' :: 'U' :: a :: b :: c :: d :: e :: f :: g :: h :: cs => do
    let x ← scalar? [a, b, c, d, e, f, g, h]
    consChar x (readEscaped long false cs)
  | '\\' :: 'x' :: a :: b :: cs => do
    let x ← scalar? [a, b]
    consChar x (readEscaped long false cs)
  | '\\' :: c :: cs =>
    match escaped? c with
    | some x => consChar x (readEscaped long false cs)
    | none => if long && blankToNewline (c :: cs) then readEscaped long true (c :: cs) else none
  | '\r' :: '\n' :: cs =>
    if !long then none
    else if skip then readEscaped long true cs
    else consChar '\n' (readEscaped long false cs)
  | c :: cs =>
    if skip && (isSpace c || c = '\n') then readEscaped long true cs
    else if c = '"' then
      if long then
        match cs with
        | '"' :: '"' :: rest => some (takeQuotes '"' rest)
        | cs => consChar c (readEscaped long false cs)
      else some ([], cs)
    else if c = '\\' then none
    else if isPlain c || (long && c = '\n') then consChar c (readEscaped long false cs)
    else none

/-- A string without escapes up to its end. -/
def readLiteral (long : Bool) : List Char → Option (List Char × List Char)
  | [] => none
  | '\r' :: '\n' :: cs => if long then consChar '\n' (readLiteral long cs) else none
  | c :: cs =>
    if c = '\'' then
      if long then
        match cs with
        | '\'' :: '\'' :: rest => some (takeQuotes '\'' rest)
        | cs => consChar c (readLiteral long cs)
      else some ([], cs)
    else if isPlain c || (long && c = '\n') then consChar c (readLiteral long cs)
    else none

def dropNewline (cs : List Char) : List Char := (afterNewline? cs).getD cs

/-- A string of any kind in front; none if there is no quote. -/
def readString : List Char → Option (List Char × List Char)
  | '"' :: '"' :: '"' :: cs => readEscaped true false (dropNewline cs)
  | '"' :: cs => readEscaped false false cs
  | '\'' :: '\'' :: '\'' :: cs => readLiteral true (dropNewline cs)
  | '\'' :: cs => readLiteral false cs
  | _ => none

/-! ## 3. Keys

A key is kept as its last name and the names on the way to it.
-/

def isNameChar (c : Char) : Bool := c.isAlphanum || c = '_' || c = '-'

def readName : List Char → Option (String × List Char)
  | '"' :: cs => (readEscaped false false cs).map fun (s, rest) => (String.ofList s, rest)
  | '\'' :: cs => (readLiteral false cs).map fun (s, rest) => (String.ofList s, rest)
  | cs =>
    match cs.takeWhile isNameChar with
    | [] => none
    | s => some (String.ofList s, cs.dropWhile isNameChar)

/-- The names of a key in front.  The first argument bounds their number. -/
def readNames : Nat → List Char → Option (List String × List Char)
  | 0, _ => none
  | n + 1, cs => do
    let (name, rest) ← readName (skipSpaces cs)
    match skipSpaces rest with
    | '.' :: rest => do
      let (names, rest) ← readNames n rest
      some (name :: names, rest)
    | rest => some ([name], rest)

/-- A key in front, in the names before the last one and the last one. -/
def readKey (cs : List Char) : Option (List String × String × List Char) := do
  let (names, rest) ← readNames (cs.length + 1) cs
  some (names.dropLast, ← names.getLast?, rest)

end TestLanes.Toml
