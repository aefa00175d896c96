/-!
# Class names

A class name is split at its last dot into a package and a simple name.  Without a dot, or with
nothing in front of it, the package is the root package.

The full name puts the parts together again.  It is the text that was split unless that begins with
its only dot, or names the root package in front of it; such texts lose that beginning.
-/

namespace TestLanes.Report

def rootPackage : String := "(root)"

/-- What precedes and what follows the last dot. -/
def cutAtLastDot : List Char → Option (List Char × List Char)
  | [] => none
  | c :: cs =>
    match cutAtLastDot cs with
    | some (front, name) => some (c :: front, name)
    | none => if c = '.' then some ([], cs) else none

/-- A class name in two parts. -/
structure ClassName where
  package : String
  simple : String
deriving Repr, DecidableEq

def ClassName.ofString (s : String) : ClassName :=
  match cutAtLastDot s.toList with
  | none => ⟨rootPackage, s⟩
  | some ([], name) => ⟨rootPackage, String.ofList name⟩
  | some (c :: front, name) => ⟨String.ofList (c :: front), String.ofList name⟩

/-- The name with its package in front, if it has one. -/
def ClassName.full (n : ClassName) : String :=
  if n.package = rootPackage then n.simple else n.package ++ "." ++ n.simple

end TestLanes.Report
