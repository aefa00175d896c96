import TestLanes.Plan.Make
import TestLanes.Settings.Layer

/-!
# Profiles

A profile is a named set of options.  What a profile leaves open is taken from the default profile,
and what a settings file leaves open there is built in.

The default profile has a value for everything but the stage, and this is carried by its type;
another profile has optional values only.  Resolving joins the two field by field, so a profile
without any settings is the default one under another name.
-/

namespace TestLanes.Settings

def defaultName : String := "default"

/-- The settings of the default profile. -/
structure BaseProfile where
  parallelism : Parallelism
  granularity : Granularity
  inclusions : Bool
  estimate : Bool
  stage : Option String
  splitsDirectory : String
deriving Repr, DecidableEq

/-- The settings of another profile. -/
structure CustomProfile where
  parallelism : Option Parallelism := none
  granularity : Option Granularity := none
  inclusions : Option Bool := none
  estimate : Option Bool := none
  stage : Option String := none
  splitsDirectory : Option String := none
deriving Repr, DecidableEq

/-- All profiles, and the depth of searches. -/
structure Profiles where
  depth : Nat
  base : BaseProfile
  customs : List (String × CustomProfile)
deriving Repr, DecidableEq

def builtIn : Layer :=
  [("history", .table [("search-depth", .integer History.defaultDepth)]),
    ("profile", .table [("default", .table
      [("parallelism", .text "count:4"), ("granularity", .text "class"),
        ("generate-inclusions", .boolean false), ("estimate-tests-from-files", .boolean false),
        ("splits-dir", .text "target/lanesplit")])])]

structure Profile where
  name : String
  options : Options
  splitsDirectory : String
deriving Repr, DecidableEq

/-- A profile over the default one; a relative directory is seen from `root`. -/
def BaseProfile.resolve (base : BaseProfile) (c : CustomProfile) (root name : String) (depth : Nat) :
    Profile where
  name
  options := {
    parallelism := c.parallelism.getD base.parallelism
    granularity := c.granularity.getD base.granularity
    inclusions := c.inclusions.getD base.inclusions
    stage := c.stage.or base.stage
    estimate := c.estimate.getD base.estimate
    depth }
  splitsDirectory := Files.join root (c.splitsDirectory.getD base.splitsDirectory)

/-- A profile that nobody has defined. -/
structure UnknownProfile where
  name : String
  known : List String
deriving Repr, DecidableEq

def UnknownProfile.message (e : UnknownProfile) : String :=
  "profile `" ++ e.name ++ "` not found (known profiles: " ++ String.intercalate ", " e.known ++ ")"

namespace Profiles

def names (s : Profiles) : List String :=
  (s.customs.map (·.1) ++ [defaultName]).mergeSort (fun a b => decide (a ≤ b))

/-- What is set in the profile with the name beside the default one. -/
def custom? (s : Profiles) (name : String) : Option CustomProfile :=
  if name = defaultName then some {} else (s.customs.find? (·.1 = name)).map (·.2)

def resolve (s : Profiles) (root name : String) : Except UnknownProfile Profile :=
  match s.custom? name with
  | some c => .ok (s.base.resolve c root name s.depth)
  | none => .error ⟨name, s.names⟩

end Profiles

end TestLanes.Settings
