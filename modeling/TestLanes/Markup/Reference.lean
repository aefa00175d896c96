import TestLanes.Markup.Event
import TestLanes.Text.Numeral
import TestLanes.Text.Blank

/-!
# Attribute texts

The text of an attribute is its value decoded as UTF-8 with the references replaced: the five named
ones, `&#n;` and `&#xh;`.  Every `&` must begin a reference.

A numeric reference can give any character but the null character, a line feed included, although
the value as it is written has none.  Names of tests can therefore have characters that no line of a
file can hold.
-/

namespace TestLanes.Markup

open Text (hexDigit? digit?)

inductive ReferenceError where
  | encoding
  | unterminated
  | unknownName
  | noCharacter
deriving Repr, DecidableEq

/-- The number written by the digits in a base, if there are any and all are digits below 2^32. -/
def codePoint? (digitValue : Char → Option Nat) (base : Nat) : List Char → Option Nat
  | [] => none
  | cs => cs.foldlM (fun n c => do
      let n' := n * base + (← digitValue c)
      if n' < Nat.pow 2 32 then some n' else none) 0

def character? (cs : List Char) : Option Char :=
  let code := match cs with
    | 'x' :: hex => codePoint? hexDigit? 16 hex
    | _ => codePoint? digit? 10 cs
  code.bind fun n => if n ≠ 0 ∧ n.isValidChar then some (Char.ofNat n) else none

/-- The character that the inside of a reference names. -/
def reference (inside : List Char) : Except ReferenceError Char :=
  match inside with
  | '#' :: code =>
    match character? code with
    | some c => .ok c
    | none => .error .noCharacter
  | _ =>
    if inside = "lt".toList then .ok '<'
    else if inside = "gt".toList then .ok '>'
    else if inside = "amp".toList then .ok '&'
    else if inside = "apos".toList then .ok '\''
    else if inside = "quot".toList then .ok '"'
    else .error .unknownName

/-- Replaces the references; `pending` is the inside of an open one, last character first. -/
def replaceReferences : Option (List Char) → List Char → Except ReferenceError (List Char)
  | none, [] => .ok []
  | some _, [] => .error .unterminated
  | none, c :: cs =>
    if c = '&' then replaceReferences (some []) cs
    else (c :: ·) <$> replaceReferences none cs
  | some inside, c :: cs =>
    if c = ';' then do
      let r ← reference inside.reverse
      (r :: ·) <$> replaceReferences none cs
    else if c = '&' then .error .unterminated
    else replaceReferences (some (c :: inside)) cs

def Attribute.text (a : Attribute) : Except ReferenceError String :=
  match String.fromUTF8? ⟨a.value.toArray⟩ with
  | none => .error .encoding
  | some s => String.ofList <$> replaceReferences none s.toList

end TestLanes.Markup
