import TestLanes.Json.Value

/-!
# Writing JSON

`compact` writes a value without blanks, `pretty` on many lines with two blanks for each level.

Both are one writer with a layout: the texts in front of items and ends, and behind names.  What is
proved about the text of a value is proved for every layout that consists of blanks, and so for both
of them at once.
-/

namespace TestLanes.Json

/-! ## 1. Strings and numbers

Quotes, backslashes and the characters below the blank are escaped, the short escapes coming first;
all other characters stand as they are.
-/

def hexDigit (n : Nat) : Char := if n < 10 then Char.ofNat (0x30 + n) else Char.ofNat (0x57 + n)

def escape (c : Char) : List Char :=
  if c = '"' then ['\\', '"']
  else if c = '\\' then ['\\', '\\']
  else if c = '\x08' then ['\\', 'b']
  else if c = '\x0c' then ['\\', 'f']
  else if c = '\n' then ['\\', 'n']
  else if c = '\r' then ['\\', 'r']
  else if c = '\t' then ['\\', 't']
  else if c.toNat < 0x20 then
    ['\\', 'u', '0', '0', hexDigit (c.toNat / 16), hexDigit (c.toNat % 16)]
  else [c]

def quote (s : String) : List Char := '"' :: (s.toList.flatMap escape ++ ['"'])

def Number.text : Number → List Char
  | .natural n => Nat.toDigits 10 n
  | .negative n => '-' :: Nat.toDigits 10 n
  | .real x => x.text.toList

/-! ## 2. Values

The writers of items and fields begin behind the first one, where a comma is due.  An array or an
object without parts has no blanks inside in either layout.
-/

/-- What stands between the parts of a value. -/
structure Layout where
  /-- In front of an item at this level. -/
  beforeItem : Nat → List Char
  /-- In front of the end of an array or object at this level. -/
  beforeEnd : Nat → List Char
  /-- Between a name and its value. -/
  afterName : List Char

def Layout.compact : Layout := ⟨fun _ => [], fun _ => [], [':']⟩

/-- A new line with two blanks for each level. -/
def Layout.newLine (level : Nat) : List Char := '\n' :: List.replicate (2 * level) ' '

/-- One line for each item and field. -/
def Layout.pretty : Layout :=
  ⟨fun level => newLine (level + 1), newLine, [':', ' ']⟩

mutual

/-- A value at some level. -/
def writeValue (l : Layout) (level : Nat) : Value → List Char
  | .null => "null".toList
  | .boolean true => "true".toList
  | .boolean false => "false".toList
  | .number n => n.text
  | .string s => quote s
  | .unreadable => "null".toList
  | .array [] => ['[', ']']
  | .array (v :: vs) =>
    '[' :: (l.beforeItem level ++ (writeValue l (level + 1) v ++ writeItems l level vs))
  | .object [] => ['{', '}']
  | .object ((k, v) :: fs) =>
    '{' :: (l.beforeItem level ++ (quote k ++ (l.afterName ++
      (writeValue l (level + 1) v ++ writeFields l level fs))))

/-- The items after the first one, and the end of their array. -/
def writeItems (l : Layout) (level : Nat) : List Value → List Char
  | [] => l.beforeEnd level ++ [']']
  | v :: vs =>
    ',' :: (l.beforeItem level ++ (writeValue l (level + 1) v ++ writeItems l level vs))

/-- The fields after the first one, and the end of their object. -/
def writeFields (l : Layout) (level : Nat) : List (String × Value) → List Char
  | [] => l.beforeEnd level ++ ['}']
  | (k, v) :: fs =>
    ',' :: (l.beforeItem level ++ (quote k ++ (l.afterName ++
      (writeValue l (level + 1) v ++ writeFields l level fs))))

end

def compact (v : Value) : String := String.ofList (writeValue .compact 0 v)

def pretty (v : Value) : String := String.ofList (writeValue .pretty 0 v)

end TestLanes.Json
