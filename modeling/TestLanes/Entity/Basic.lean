import TestLanes.Millis

/-!
# Entities

An entity is what is given to a lane as a whole: a test class or a test case, known by its key.

The patterns of an entity are what the lanes' files say about it.  A class is selected by its source
file and by its compiled file, and its key may be a qualified name or a path: dots and slashes come
out the same.  A case is selected by its key as it is.
-/

namespace TestLanes

/-- The kinds of entities. -/
inductive EntityKind where
  | testClass
  | testCase
deriving Repr, DecidableEq

/-- A thing to run, with the time it is expected to take. -/
structure Entity where
  key : String
  duration : Millis
  kind : EntityKind
deriving Repr, DecidableEq

namespace Entity

def estimatedDuration : Millis := Millis.ofNat 10

def classPath (key : String) : String :=
  String.ofList (key.toList.map fun c => if c = '.' then '/' else c)

/-- The patterns that select an entity: a class has a source file and a compiled file. -/
def elements (e : Entity) : List String :=
  match e.kind with
  | .testClass => [classPath e.key ++ ".java", classPath e.key ++ ".class"]
  | .testCase => [e.key]

end Entity

end TestLanes
