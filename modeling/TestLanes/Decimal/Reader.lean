import TestLanes.Decimal.Binary64
import TestLanes.Text.Numeral

/-!
# Reading decimal numerals

A decimal numeral is an optional sign, digits with at most one point among or beside them, and an
optional exponent: `-1.5`, `.5`, `2.`, `1e-3`.

The parts are taken off the front one after the other, and each taker gives what follows it.  The
two lemmas on lengths say that a taker gives back no more than it got; readers of other formats,
which recurse on the rest, cite them for their termination.
-/

namespace TestLanes.Decimal

open Text (digit?)

/-- The values of the digits in front, and what follows them. -/
def takeDigits : List Char → List Nat × List Char
  | [] => ([], [])
  | c :: cs =>
    match digit? c with
    | some d => (d :: (takeDigits cs).1, (takeDigits cs).2)
    | none => ([], c :: cs)

theorem length_takeDigits (cs : List Char) :
    (takeDigits cs).1.length + (takeDigits cs).2.length = cs.length := by
  induction cs with
  | nil => rfl
  | cons c cs ih =>
    unfold takeDigits
    split
    · simp only [List.length_cons]; omega
    · simp

def ofDigits (ds : List Nat) : Nat := ds.foldl (fun n d => 10 * n + d) 0

/-- Whether there is a minus sign in front, and the text without its sign. -/
def takeSign : List Char → Bool × List Char
  | '-' :: cs => (true, cs)
  | '+' :: cs => (false, cs)
  | cs => (false, cs)

theorem length_takeSign_le (cs : List Char) : (takeSign cs).2.length ≤ cs.length := by
  unfold takeSign
  split <;> simp

/-- The exponent that makes up the rest of a numeral, zero if there is no rest. -/
def readExponent : List Char → Option Int
  | [] => some 0
  | c :: cs =>
    if c = 'e' ∨ c = 'E' then
      let (negative, cs) := takeSign cs
      match takeDigits cs with
      | ([], _) => none
      | (ds, []) => some (if negative then -(ofDigits ds : Int) else (ofDigits ds : Int))
      | (_, _ :: _) => none
    else none

/-- The fraction digits after a point, if there is one, and what follows them. -/
def takeFraction : List Char → List Nat × List Char
  | '.' :: cs => takeDigits cs
  | cs => ([], cs)

/-- The numeral that a text spells. -/
def Numeral.read (cs : List Char) : Option Numeral :=
  let (negative, cs) := takeSign cs
  let (whole, cs) := takeDigits cs
  let (fraction, cs) := takeFraction cs
  if whole.isEmpty && fraction.isEmpty then none
  else (readExponent cs).map fun e =>
    ⟨negative, ofDigits (whole ++ fraction), e - (fraction.length : Int)⟩

end TestLanes.Decimal
