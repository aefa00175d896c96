import TestLanes.Report.Case
import TestLanes.Report.ClassName
import TestLanes.Text.Numeral

/-!
# Result trees

The results of a test run, grouped by package and then by class, both in the order in which they
first occur.  Trees are made from cases, and merging and narrowing go back to the cases.

Every tree of the program is `ofCases` of some list, so what is proved about grouping holds for all
of them.  The cases of a tree are a permutation of that list, in which cases of one class stand
together in the order of the list.
-/

namespace TestLanes.Report

/-! ## 1. Grouping

A case goes to the first class with its name in the first package with its package's name, or makes
a new one at the end.  Packages are compared by name and classes by simple name within a package.
-/

structure ClassResult where
  className : ClassName
  cases : List Case
deriving Repr, DecidableEq

structure PackageResult where
  name : String
  classes : List ClassResult
deriving Repr, DecidableEq

structure Tree where
  name : String
  packages : List PackageResult
deriving Repr, DecidableEq

/-- Adds a case to its class, which is put last if it is new. -/
def addToClasses (n : ClassName) (c : Case) : List ClassResult → List ClassResult
  | [] => [⟨n, [c]⟩]
  | r :: rs =>
    if r.className.simple = n.simple then { r with cases := r.cases ++ [c] } :: rs
    else r :: addToClasses n c rs

/-- Adds a case to its package, which is put last if it is new. -/
def addToPackages (n : ClassName) (c : Case) : List PackageResult → List PackageResult
  | [] => [⟨n.package, [⟨n, [c]⟩]⟩]
  | p :: ps =>
    if p.name = n.package then { p with classes := addToClasses n c p.classes } :: ps
    else p :: addToPackages n c ps

namespace Tree

def empty (name : String) : Tree := ⟨name, []⟩

/-- The tree of cases in the order given. -/
def ofCases (name : String) (cases : List Case) : Tree :=
  ⟨name, cases.foldl (fun ps c => addToPackages (ClassName.ofString c.className) c ps) []⟩

/-! ## 2. Views

The classes and the cases of a tree in its own order, and counts of them.
-/

def classes (t : Tree) : List ClassResult := t.packages.flatMap PackageResult.classes

def cases (t : Tree) : List Case := t.classes.flatMap ClassResult.cases

def totalCount (t : Tree) : Nat := t.cases.length

def failCount (t : Tree) : Nat := t.cases.countP (fun c => c.status.isFailure)

/-! ## 3. New trees from old ones

Both operations are `ofCases` of the cases that are wanted, in tree order.
-/

/-- One tree of the cases of many. -/
def merge (name : String) (trees : List Tree) : Tree := ofCases name (trees.flatMap cases)

/-- The tree of the cases that ran in the block. -/
def forBlock (t : Tree) (block : String) : Tree :=
  ofCases t.name (t.cases.filter (Case.inBlock block))

end Tree

/-! ## 4. Times of classes

The times of a class are added exactly, and a sum beyond the longest duration has no value.
-/

/-- A time is whole seconds below 2^64 and a rest; a sum beyond that has no value. -/
inductive DurationError where
  | overflow
deriving Repr, DecidableEq

def DurationError.message : DurationError → String
  | .overflow => "overflow in iter::sum over durations"

/-- The milliseconds of all cases of a class together. -/
def ClassResult.duration (r : ClassResult) : Except DurationError Nat :=
  let total := sumOf (r.cases.map (·.duration.val))
  if total / 1000 < Text.wordBound then .ok total else .error .overflow

end TestLanes.Report
