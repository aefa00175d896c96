import TestLanes.CommandLine.Arguments
import TestLanes.CommandLine.Environment
import TestLanes.Plan.Make
import TestLanes.Plan.Text

/-!
# Invocations

What the program is asked to do: the arguments, filled up from the environment.

A variable is looked at only where the arguments in question give no value for its key, and its
value must then be right.  The invocation keeps optional values optional: they go before the values
of the profile later, when the settings have been read.
-/

namespace TestLanes.CommandLine

inductive ColourChoice where
  | auto
  | always
  | never
deriving Repr, DecidableEq

def ColourChoice.ofName? : String → Option ColourChoice
  | "auto" => some .auto
  | "always" => some .always
  | "never" => some .never
  | _ => none

def formatOfName? : String → Option Plan.Format
  | "human" => some .lines
  | "json" => some .json
  | "json-pretty" => some .jsonPretty
  | _ => none

/-- A run of the command. -/
structure Invocation where
  verbose : Bool
  colour : ColourChoice
  historyDirectory : String
  branch : String
  build : Option Nat
  changeTarget : Option String
  workspace : Option String
  outDirectory : Option String
  settingsFile : Option String
  profile : Option String
  parallelism : Option Parallelism
  granularity : Option Granularity
  inclusions : Bool
  stage : Option String
  estimate : Bool
  format : Plan.Format
deriving Repr, DecidableEq

/-- The value of a key from the arguments of one part, or from the environment, where it must be
right. -/
def valueIn (env : Environment) (given : Given) (k : Key) : Except Stop (Option String) :=
  match given.get? k with
  | some v => .ok (some v)
  | none =>
    match k.envName?.bind env.get? with
    | none => .ok none
    | some v => if k.accepts v then .ok (some v) else .error .usage

/-- The value of a key that may stand in both parts: the one behind the command goes before the one
in front of it, and both go before the environment. -/
def sharedValue (env : Environment) (args : Arguments) (k : Key) :
    Except Stop (Option String) := do
  let behind ← valueIn env args.command k
  let front ← valueIn env args.front k
  .ok ((args.command.get? k).or ((args.front.get? k).or (behind.or front)))

def demand : Option String → Except Stop String
  | some v => .ok v
  | none => .error .usage

/-- What the program is asked to do. -/
def Invocation.read (args : List String) (env : Environment) : Except Stop Invocation := do
  let args ← readArguments args
  let given := args.command
  let verbose ← sharedValue env args .verbose
  let colour ← sharedValue env args .colour
  let historyDirectory ← demand (← valueIn env given .historyDirectory)
  let branch ← demand (← valueIn env given .branch)
  let profile ← valueIn env given .profile
  .ok {
    verbose := verbose = some "true"
    colour := (colour.bind ColourChoice.ofName?).getD .auto
    historyDirectory, branch
    build := (given.get? .build).bind Text.readNumeral?
    changeTarget := given.get? .changeTarget
    workspace := given.get? .workspace
    outDirectory := given.get? .outDirectory
    settingsFile := given.get? .settingsFile
    profile
    parallelism := (given.get? .parallelism).bind fun v => (Parallelism.read v).toOption
    granularity := (given.get? .granularity).bind Granularity.ofName?
    inclusions := (given.get? .inclusions).isSome
    stage := given.get? .stage
    estimate := (given.get? .estimate).isSome
    format := ((given.get? .format).bind formatOfName?).getD .lines }

/-- The options of a profile with those that are given in their place. -/
def Invocation.override (i : Invocation) (o : Options) : Options where
  parallelism := i.parallelism.getD o.parallelism
  granularity := i.granularity.getD o.granularity
  inclusions := i.inclusions || o.inclusions
  stage := i.stage.or o.stage
  estimate := i.estimate || o.estimate
  depth := o.depth

end TestLanes.CommandLine
