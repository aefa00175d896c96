/-!
# Granularities

The unit that tests are spread by.  `name` is the one spelling of each, and `read` accepts exactly
these spellings.

`ofName?` looks through the list of all granularities, so a spelling that is added to `name` is read
without further ado, and the message for an unknown text lists every spelling there is.
-/

namespace TestLanes

inductive Granularity where
  /-- Whole test classes. -/
  | testClass
  /-- Test cases known by their own name. -/
  | testCase
  /-- Test cases known by class and name. -/
  | qualifiedCase
  /-- Java test methods, all sets of parameters together. -/
  | javaCase
  /-- Java test methods with one set of parameters. -/
  | parameterizedCase
deriving Repr, DecidableEq

namespace Granularity

instance : Inhabited Granularity := ⟨testClass⟩

def name : Granularity → String
  | testClass => "class"
  | testCase => "case"
  | qualifiedCase => "qualified-case"
  | javaCase => "java-case"
  | parameterizedCase => "parameterized-case"

def all : List Granularity := [testClass, testCase, qualifiedCase, javaCase, parameterizedCase]

/-- What the entities of a granularity are called. -/
def word : Granularity → String
  | testClass => "classes"
  | _ => "cases"

/-- Whether entities can be told from source files. -/
def canEstimate : Granularity → Bool
  | testClass | javaCase | parameterizedCase => true
  | testCase | qualifiedCase => false

/-- A text that spells no granularity. -/
structure Unknown where
  input : String
deriving Repr, DecidableEq

def Unknown.message (e : Unknown) : String :=
  "unrecognized value for granularity: " ++ e.input ++ "\n(known values: "
    ++ String.intercalate ", " (all.map name) ++ ")"

def ofName? (s : String) : Option Granularity := all.find? (·.name = s)

def read (s : String) : Except Unknown Granularity :=
  match ofName? s with
  | some g => .ok g
  | none => .error ⟨s⟩

theorem mem_all (g : Granularity) : g ∈ all := by cases g <;> simp [all]

theorem ofName?_name (g : Granularity) : ofName? g.name = some g := by cases g <;> rfl

end Granularity

end TestLanes
