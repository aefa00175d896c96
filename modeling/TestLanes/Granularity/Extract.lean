import TestLanes.Entity.Map
import TestLanes.Granularity.Basic
import TestLanes.Report.Tree

/-!
# Entities of a result tree

`extract` turns the classes of a tree into entities.  Classes have distinct names, so each one is
put in; cases may share a key, so their times are added.

The class mode sums the cases of a class exactly and refuses a sum beyond the range of durations,
which is the only fault of an extraction; the result is then cut off at the ceiling of milliseconds.
The case modes cut off each case and each addition.  Both lead to the same total, as the exact sum
cut off once.
-/

namespace TestLanes

open Report (Case ClassResult DurationError Tree)

/-- A case name without the parameters in brackets at its end. -/
def stripParameters (name : String) : String :=
  if name.toList.getLast? = some ']' ∧ '[' ∈ name.toList then
    String.ofList (name.toList.takeWhile (· ≠ '['))
  else name

namespace Granularity

/-- The key of a case of the class. -/
def caseKey (g : Granularity) (r : ClassResult) (c : Case) : String :=
  match g with
  | .testClass => r.className.full
  | .testCase => c.name
  | .qualifiedCase | .parameterizedCase => r.className.full ++ "#" ++ c.name
  | .javaCase => r.className.full ++ "#" ++ stripParameters c.name

def addWhole (m : EntityMap) (r : ClassResult) : Except DurationError EntityMap := do
  let total ← r.duration
  .ok (m.put ⟨r.className.full, Millis.ofNat total, .testClass⟩)

def addCases (g : Granularity) (m : EntityMap) (r : ClassResult) : EntityMap :=
  r.cases.foldl (fun m c => m.merge ⟨g.caseKey r c, c.duration.toMillis, .testCase⟩) m

def addClass (g : Granularity) (m : EntityMap) (r : ClassResult) :
    Except DurationError EntityMap :=
  match g with
  | .testClass => addWhole m r
  | g => .ok (g.addCases m r)

def extract (g : Granularity) (t : Tree) : Except DurationError EntityMap :=
  t.classes.foldlM g.addClass .empty

end Granularity

end TestLanes
