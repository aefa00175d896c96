import TestLanes.Decimal.Reader
import TestLanes.Toml.Value

/-!
# TOML scalars

Numbers, truth values and points in time.  `readScalar` takes the text of one scalar as a whole.

A text is tried as each kind in turn.  No text is of two kinds: an integer has neither a point nor
an exponent, and a point in time has hyphens between its digits or colons.
-/

namespace TestLanes.Toml

open Text (digit? hexDigit?)
open Decimal (Binary64 Numeral ofDigits)

/-! ## 1. Numbers

Digits may be grouped by single underscores.  An integer has more room here than settings have, and
a number that is too large for the 64-bit format is refused.
-/

/-- The values of digits; single underscores may stand between digits. -/
def readGroups (value? : Char → Option Nat) : List Char → Option (List Nat)
  | [] => none
  | c :: cs => do
    let d ← value? c
    match cs with
    | [] => some [d]
    | '_' :: cs => (d :: ·) <$> readGroups value? cs
    | cs => (d :: ·) <$> readGroups value? cs

def octalDigit? (c : Char) : Option Nat := (digit? c).filter (· < 8)

def binaryDigit? (c : Char) : Option Nat := (digit? c).filter (· < 2)

def ofBase (base : Nat) (digits : List Nat) : Nat := digits.foldl (fun n d => base * n + d) 0

/-- An optional sign in front; tells whether it is there and whether it is a minus. -/
def takeSign : List Char → Bool × List Char
  | '-' :: cs => (true, cs)
  | '+' :: cs => (false, cs)
  | cs => (false, cs)

/-- The digits of a decimal integer, which has no needless zero in front. -/
def readWhole (cs : List Char) : Option (List Nat) := do
  match ← readGroups digit? cs with
  | 0 :: _ :: _ => none
  | ds => some ds

def integer? (n : Int) : Option Value :=
  if -(Nat.pow 2 127 : Int) ≤ n ∧ n < (Nat.pow 2 128 : Int) then some (.integer n) else none

def readInteger (cs : List Char) : Option Value :=
  match cs with
  | '0' :: 'x' :: cs => do integer? (ofBase 16 (← readGroups hexDigit? cs) : Nat)
  | '0' :: 'o' :: cs => do integer? (ofBase 8 (← readGroups octalDigit? cs) : Nat)
  | '0' :: 'b' :: cs => do integer? (ofBase 2 (← readGroups binaryDigit? cs) : Nat)
  | cs => do
    let (negative, cs) := takeSign cs
    let n := ofDigits (← readWhole cs)
    integer? (if negative then -(n : Int) else (n : Int))

/-- What precedes the first character that the test accepts, and what follows it. -/
def cutAt (p : Char → Bool) : List Char → List Char × Option (List Char)
  | [] => ([], none)
  | c :: cs =>
    if p c then ([], some cs) else (c :: (cutAt p cs).1, (cutAt p cs).2)

/-- The exponent of a number, zero if it is missing. -/
def readExponent : Option (List Char) → Option Int
  | none => some 0
  | some cs => do
    let (negative, cs) := takeSign cs
    let n := ofDigits (← readGroups digit? cs)
    some (if negative then -(n : Int) else (n : Int))

/-- A number with a fraction or an exponent, which must not be too large. -/
def readReal (cs : List Char) : Option Value := do
  let (negative, cs) := takeSign cs
  if cs = "inf".toList then some (.real (.infinite negative))
  else if cs = "nan".toList then some (.real .nan)
  else
    let (mantissa, exponent) := cutAt (fun c => c = 'e' || c = 'E') cs
    let (whole, fraction) := cutAt (· = '.') mantissa
    if fraction.isNone && exponent.isNone then none
    else
      let ws ← readWhole whole
      let fs ← match fraction with
        | none => some []
        | some fs => readGroups digit? fs
      let e ← readExponent exponent
      let x ← (⟨negative, ofDigits (ws ++ fs), e - (fs.length : Int)⟩ : Numeral).magnitude
      some (.real (.finite negative x))

/-! ## 2. Points in time

A date, a time of day, or both, with a distance from universal time or without one.  Their text is
written anew, so that two spellings of one point in time become one text: fractions are cut to nine
digits and lose their trailing zeros, and the letters are upper case.
-/

/-- The number that `n` digits in front write, and what follows them. -/
def takeFixed (n : Nat) (cs : List Char) : Option (Nat × List Char) := do
  let ds ← (cs.take n).mapM digit?
  if ds.length = n then some (ofDigits ds, cs.drop n) else none

def afterChar (c : Char) : List Char → Option (List Char)
  | [] => none
  | d :: cs => if c = d then some cs else none

def twoDigits (n : Nat) : String := if n < 10 then "0" ++ toString n else toString n

def fourDigits (n : Nat) : String :=
  let s := toString n
  String.ofList (List.replicate (4 - s.length) '0') ++ s

def isLeap (year : Nat) : Bool := year % 4 = 0 && (year % 100 != 0 || year % 400 = 0)

def daysIn (year month : Nat) : Nat :=
  if month = 2 then (if isLeap year then 29 else 28)
  else if month = 4 ∨ month = 6 ∨ month = 9 ∨ month = 11 then 30
  else 31

/-- A date in front as its text, and what follows it. -/
def takeDate (cs : List Char) : Option (String × List Char) := do
  let (year, cs) ← takeFixed 4 cs
  let (month, cs) ← takeFixed 2 (← afterChar '-' cs)
  let (day, cs) ← takeFixed 2 (← afterChar '-' cs)
  if 1 ≤ month ∧ month ≤ 12 ∧ 1 ≤ day ∧ day ≤ daysIn year month then
    some (fourDigits year ++ "-" ++ twoDigits month ++ "-" ++ twoDigits day, cs)
  else none

/-- The digits of a second's fraction up to the ninth, without zeros at the end. -/
def fractionText (ds : List Nat) : String :=
  let kept := ((ds.take 9).reverse.dropWhile (· = 0)).reverse
  if kept.isEmpty then "" else "." ++ String.join (kept.map toString)

/-- The seconds of a time, which may be missing, as text. -/
def takeSeconds : List Char → Option (String × List Char)
  | ':' :: cs => do
    let (second, cs) ← takeFixed 2 cs
    if 60 < second then none
    else
      match cs with
      | '.' :: cs =>
        match Decimal.takeDigits cs with
        | ([], _) => none
        | (ds, cs) => some (":" ++ twoDigits second ++ fractionText ds, cs)
      | cs => some (":" ++ twoDigits second, cs)
  | cs => some ("", cs)

/-- A time of day in front as its text, and what follows it. -/
def takeTime (cs : List Char) : Option (String × List Char) := do
  let (hour, cs) ← takeFixed 2 cs
  let (minute, cs) ← takeFixed 2 (← afterChar ':' cs)
  let (seconds, cs) ← takeSeconds cs
  if hour ≤ 23 ∧ minute ≤ 59 then
    some (twoDigits hour ++ ":" ++ twoDigits minute ++ seconds, cs)
  else none

/-- The distance from universal time as its text; empty if it is missing. -/
def readOffset : List Char → Option String
  | [] => some ""
  | ['Z'] | ['z'] => some "Z"
  | c :: cs =>
    if c = '+' ∨ c = '-' then do
      let (hour, cs) ← takeFixed 2 cs
      let (minute, cs) ← takeFixed 2 (← afterChar ':' cs)
      let sign := if c = '-' ∧ hour + minute ≠ 0 then "-" else "+"
      if cs.isEmpty ∧ hour ≤ 23 ∧ minute ≤ 59 then
        some (sign ++ twoDigits hour ++ ":" ++ twoDigits minute)
      else none
    else none

/-- A date, a time of day, or both with an offset or without. -/
def readMoment (cs : List Char) : Option Value :=
  match takeDate cs with
  | some (date, []) => some (.moment date)
  | some (date, c :: cs) =>
    if c = 'T' ∨ c = 't' ∨ c = ' ' then do
      let (time, cs) ← takeTime cs
      let offset ← readOffset cs
      some (.moment (date ++ "T" ++ time ++ offset))
    else none
  | none => do
    match ← takeTime cs with
    | (time, []) => some (.moment time)
    | _ => none

/-! ## 3. Scalars -/

/-- The value that a scalar without quotes denotes. -/
def readScalar (cs : List Char) : Option Value :=
  if cs = "true".toList then some (.boolean true)
  else if cs = "false".toList then some (.boolean false)
  else (readInteger cs).or ((readReal cs).or (readMoment cs))

end TestLanes.Toml
