import TestLanes.Parallelism.Given
import TestLanes.Settings.Profile

/-!
# Settings as data

What the layers of settings say.  A structure is a table, or an array with its fields in order.  In
the default profile values are taken for what is needed, in other profiles they must be of the very
kind.  The first fault counts; it has the path of the value that is wrong, but all faults of other
profiles have that of the table of profiles.

The two kinds of profiles are read by one reader with a `Taking`, which says what each kind of field
accepts and which fields may be nothing; the reader goes through the fields in the order in which
they are written.  The default profile then demands that the built-in fields are there, which holds
unless a layer has replaced the table that they stood in.
-/

namespace TestLanes.Settings

/-! ## 1. Faults

Every value is read at its place, which has its path, and a fault takes the path of the place where
it occurs.  The path of a field in a table ends with its name, in an array with its number.
-/

/-- A value that is wrong; `detail` tells what is wrong with a parallelism. -/
structure Fault where
  path : String
  detail : Option String := none
deriving Repr, DecidableEq

/-- The value in a field, with its path. -/
structure Place where
  path : String
  value : Value

def Place.fail (p : Place) : Except Fault α := .error ⟨p.path, none⟩

def Place.read (p : Place) (read? : Value → Option α) : Except Fault α :=
  match read? p.value with
  | some a => .ok a
  | none => p.fail

/-- The fields of a structure that are there, in the order in which they are written: by their names
in a table, by their numbers in an array. -/
def Place.fields (p : Place) (all : List F) (name : F → String) : Except Fault (List (F × Place)) :=
  match p.value with
  | .table es =>
    .ok (es.filterMap fun (key, v) =>
      (all.find? (name · = key)).map fun field => (field, ⟨p.path ++ "." ++ key, v⟩))
  | .array vs =>
    .ok ((all.zip vs).mapIdx fun i (field, v) =>
      (field, ⟨p.path ++ "[" ++ toString i ++ "]", v⟩))
  | _ => p.fail

def Place.require (p : Place) : Option α → Except Fault α
  | some a => .ok a
  | none => p.fail

/-! ## 2. Values of profiles

A parallelism is read in one way everywhere.  The other values are read as the `Taking` says:
`loose` for the default profile, `strict` for the others.
-/

/-- The fields of a profile. -/
inductive Field where
  | parallelism
  | granularity
  | inclusions
  | estimate
  | stage
  | splitsDirectory
deriving Repr, DecidableEq

namespace Field

def all : List Field := [parallelism, granularity, inclusions, estimate, stage, splitsDirectory]

def name : Field → String
  | parallelism => "parallelism"
  | granularity => "granularity"
  | inclusions => "generate-inclusions"
  | estimate => "estimate-tests-from-files"
  | stage => "stage"
  | splitsDirectory => "splits-dir"

end Field

def givenOf : Value → Parallelism.Given
  | .nothing => .nothing
  | .boolean b => .boolean b
  | .integer n => .integer n
  | .real x => .real x
  | .text s => .text s
  | .array _ => .sequence
  | .table _ => .table

def decodeParallelism (p : Place) : Except Fault Parallelism :=
  match Parallelism.ofGiven (givenOf p.value) with
  | .ok a => .ok a
  | .error (.text cause) => .error ⟨p.path, some cause.message⟩
  | .error _ => p.fail

/-- What values of a profile are taken for. -/
structure Taking where
  granularity? : Value → Option Granularity
  boolean? : Value → Option Bool
  text? : Value → Option String
  /-- The fields that may be nothing, as if they were missing. -/
  mayBeNothing : Field → Bool

/-- The granularity that a text or the only name of a table spells. -/
def granularity? : Value → Option Granularity
  | .text s => Granularity.ofName? s
  | .table [(s, _)] => Granularity.ofName? s
  | _ => none

/-- Values are taken for what is needed. -/
def loose : Taking where
  granularity?
  boolean? := Value.toBoolean?
  text? := Value.toText?
  mayBeNothing field := field = .stage

/-- The granularity that a text spells, or the only name of a table with nothing in it. -/
def exactGranularity? : Value → Option Granularity
  | .text s => Granularity.ofName? s
  | .table [(s, .nothing)] => Granularity.ofName? s
  | _ => none

def exactBoolean? : Value → Option Bool
  | .boolean b => some b
  | _ => none

def exactText? : Value → Option String
  | .text s => some s
  | _ => none

/-- Values must be of the very kind. -/
def strict : Taking where
  granularity? := exactGranularity?
  boolean? := exactBoolean?
  text? := exactText?
  mayBeNothing _ := true

/-! ## 3. Profiles

Both kinds of profiles are read into a profile with optional values.  One that is not the default
one may be nothing in any field, and an array of such values must not be longer than there are
fields.
-/

def Value.isNothing : Value → Bool
  | .nothing => true
  | _ => false

/-- Takes over the value of one field. -/
def CustomProfile.take (t : Taking) (c : CustomProfile) (field : Field) (p : Place) :
    Except Fault CustomProfile :=
  if t.mayBeNothing field && p.value.isNothing then .ok c
  else match field with
    | .parallelism => do .ok { c with parallelism := some (← decodeParallelism p) }
    | .granularity => do .ok { c with granularity := some (← p.read t.granularity?) }
    | .inclusions => do .ok { c with inclusions := some (← p.read t.boolean?) }
    | .estimate => do .ok { c with estimate := some (← p.read t.boolean?) }
    | .stage => do .ok { c with stage := some (← p.read t.text?) }
    | .splitsDirectory => do .ok { c with splitsDirectory := some (← p.read t.text?) }

/-- The fields of a profile that are there; of several faults the first one counts. -/
def decodeFields (t : Taking) (p : Place) : Except Fault CustomProfile := do
  (← p.fields Field.all Field.name).foldlM (fun c (field, place) => c.take t field place) {}

def decodeBase (p : Place) : Except Fault BaseProfile := do
  let c ← decodeFields loose p
  .ok {
    parallelism := ← p.require c.parallelism
    granularity := ← p.require c.granularity
    inclusions := ← p.require c.inclusions
    estimate := ← p.require c.estimate
    stage := c.stage
    splitsDirectory := ← p.require c.splitsDirectory }

/-- Whether a value has more items than a profile has fields. -/
def hasTooMany : Value → Bool
  | .array vs => Field.all.length < vs.length
  | _ => false

def decodeCustom (p : Place) : Except Fault CustomProfile := do
  let c ← decodeFields strict p
  if hasTooMany p.value then p.fail else .ok c

/-- A fault without the way into the profile. -/
def Fault.atProfiles (f : Fault) : Fault := { f with path := "profile" }

/-- The profiles of a table beside the default one. -/
def decodeCustoms (es : Layer) : Except Fault (List (String × CustomProfile)) :=
  (es.filter (·.1 ≠ defaultName)).mapM fun (name, v) =>
    match decodeCustom ⟨name, v⟩ with
    | .ok c => .ok (name, c)
    | .error f => .error f.atProfiles

/-! ## 4. All settings

The history is read before the profiles, and the default profile before the others, which are read
in the order of the table.  With several faults the first one in this order is the one that counts.
-/

def decodeDepth (p : Place) : Except Fault Nat := do
  match ← p.fields [()] (fun _ => "search-depth") with
  | (_, depth) :: _ => depth.read Value.toNatural?
  | [] => p.fail

def topField (l : Layer) (name : String) : Option Place := (get? l name).map fun v => ⟨name, v⟩

/-- The profiles and the depth that settings give. -/
def decode (l : Layer) : Except Fault Profiles := do
  let depth ← match topField l "history" with
    | some p => decodeDepth p
    | none => .ok History.defaultDepth
  match topField l "profile" with
  | none => .error ⟨"profile", none⟩
  | some p =>
    match p.value with
    | .table es =>
      let base ← match get? es defaultName with
        | some v => decodeBase ⟨"profile." ++ defaultName, v⟩
        | none => p.fail
      let customs ← decodeCustoms es
      .ok { depth, base, customs }
    | _ => p.fail

/-! ## 5. Keys without a meaning

Unknown keys are no faults and are only reported.  They are looked for on the top level, in the
table of the history and in the default profile.
-/

/-- The names of a table that are not among those known, with a path in front. -/
def unknownIn (front : String) (known : List String) (v : Value) : List String :=
  (v.entries.filter fun e => !known.contains e.1).map fun e => front ++ e.1

/-- The value of a name, `nothing` if there is none. -/
def valueAt (es : Layer) (name : String) : Value := (get? es name).getD .nothing

/-- The paths of keys that no setting has, in ascending order.  Keys of profiles beside the default
one are not looked at. -/
def unknownKeys (l : Layer) : List String :=
  let history := unknownIn "history." ["search-depth"] (valueAt l "history")
  let base := valueAt (valueAt l "profile").entries defaultName
  (unknownIn "" ["history", "profile"] (.table l) ++ history
    ++ unknownIn "profile.default." (Field.all.map Field.name) base).eraseDups.mergeSort
      (fun a b => decide (a ≤ b))

end TestLanes.Settings
