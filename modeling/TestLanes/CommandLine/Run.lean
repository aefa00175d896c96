import TestLanes.CommandLine.Colour
import TestLanes.CommandLine.LogFilter
import TestLanes.Estimate.Listing
import TestLanes.History.Store
import TestLanes.Settings.Load

/-!
# Running the program

`run` is the whole program: from arguments, environment, files and what else surrounds it to an exit
code, two texts and the files afterwards.  Files are written last, and nothing is printed unless
that succeeds.

Two faults come from outside.  The current directory may have no path that can be used; that matters
only where no workspace is given, and it is found before the settings are read.  And the output may
break off; by then the files have been written.
-/

namespace TestLanes.CommandLine

open Files (Disk)
open History (Store)

/-! ## 1. Exit codes

Zero is success.  Wrong arguments have the code that command line programs use for them; the other
faults are told apart by where they occur: settings and workspace, history, lane files, output.  The
last code is that of a program that cannot go on with numbers that are too large.
-/

def codeOk : Nat := 0

def codeUsage : Nat := 2

def codeSetup : Nat := 96

def codeHistory : Nat := 97

def codeWrite : Nat := 98

def codeOutput : Nat := 110

def codeAbort : Nat := 101

/-! ## 2. Faults

A fault is one line with its cause, if that is known, on further lines.  Which code a fault has does
not depend on what caused it.
-/

/-- Why the current directory cannot be the workspace. -/
inductive CurrentDirectoryError where
  /-- It cannot be determined. -/
  | unknown
  /-- Its path is no text; `shown` is what can be shown of it. -/
  | notText (shown : String)
deriving Repr, DecidableEq

/-- Why no plan is made, written and shown. -/
inductive Fault where
  | currentDirectory (e : CurrentDirectoryError)
  | settings (e : Settings.LoadError)
  | profile (e : Settings.UnknownProfile)
  | history (e : History.StoreError)
  | write (directory : String) (e : Output.WriteError)
  | output
  | abort (message : String)
deriving Repr, DecidableEq

def Fault.code : Fault → Nat
  | .currentDirectory _ | .settings _ | .profile _ => codeSetup
  | .history _ => codeHistory
  | .write .. => codeWrite
  | .output => codeOutput
  | .abort _ => codeAbort

def errorTopic : String := "lanesplit_cli::errors"

/-- The part of the program that lines without a level come from. -/
def plainTopic : String := "lanesplit::no_heading"

/-- What a fault says, with its paths painted. -/
def Fault.message (paint : Plan.Paint) : Fault → String
  | .currentDirectory .unknown => "could not determine current directory"
  | .currentDirectory (.notText shown) => "current directory `" ++ paint.apply shown
      ++ "` is not valid UTF-8 (pass in --workspace)"
  | .settings e => "failed to parse lanesplit config at `" ++ paint.apply e.file ++ "`"
  | .profile e => e.message
  | .history e => e.message
  | .write directory _ => "failed to write splits to `" ++ paint.apply directory ++ "`"
  | .output => "error writing output"
  | .abort message => message

/-- What a fault was caused by, if that can be told. -/
def Fault.cause? : Fault → Option String
  | .settings e => e.cause.detail?
  | .write _ e => some e.message
  | _ => none

def Fault.lines (paint : Plan.Paint) (f : Fault) : List LogLine :=
  ⟨.error, errorTopic, f.message paint⟩ ::
    f.cause?.toList.map fun cause => ⟨.error, plainTopic, "\nCaused by:\n  " ++ cause⟩

/-! ## 3. The command

The command reads the settings, makes the plan and writes it.  Each stage ends it at its first fault
with the disk as it is; only the last stage changes the disk.
-/

/-- The absolute path of the directory that paths start from. -/
def currentPath (d : Disk) : String := "/" ++ String.intercalate "/" d.current

def Invocation.root (i : Invocation) (d : Disk) : String := i.workspace.getD (currentPath d)

/-- What is known before the history is read: the options, and the directory for lane files. -/
structure Setup where
  options : Options
  directory : String
deriving Repr, DecidableEq

/-- The line that tells with which profile a plan is made. -/
def setupLine (profile : String) (o : Options) : LogLine :=
  ⟨.debug, "lanesplit_cli::dispatch", "splitting with profile `" ++ profile ++ "`: parallelism "
    ++ o.parallelism.text ++ ", granularity " ++ o.granularity.name⟩

def Invocation.setup (i : Invocation) (d : Disk) : Logged (Except Fault Setup) := do
  match ← Settings.loadLogged d (i.root d) i.settingsFile with
  | .error e => return .error (.settings e)
  | .ok loaded =>
    match loaded.profile (i.profile.getD Settings.defaultName) with
    | .error e => return .error (.profile e)
    | .ok profile =>
      let options := i.override profile.options
      ⟨.ok ⟨options, i.outDirectory.getD profile.splitsDirectory⟩,
        [setupLine profile.name options]⟩

def Fault.ofCurrent : History.CurrentError → Fault
  | .store e => .history e
  | .noNumberLeft => .abort (History.CurrentError.message .noNumberLeft)

def Invocation.plan (i : Invocation) (d : Disk) (options : Options) :
    Logged (Except Fault Plan) := do
  match Store.ofRoot d i.historyDirectory with
  | .error e => return .error (.history e)
  | .ok store =>
    match ← store.currentBuild i.branch i.build with
    | .error e => return .error (.ofCurrent e)
    | .ok current =>
      let workspace := Estimate.diskWorkspace d (i.root d)
      match ← options.plan store.archive (current.withTarget i.changeTarget) (some workspace) with
      | .error e => return .error (.abort e.message)
      | .ok plan => return .ok plan

/-- Makes the plan and writes it; gives the plan and its directory, and the files afterwards. -/
def Invocation.execute (i : Invocation) (d : Disk) :
    Logged (Except Fault (Plan × String) × Disk) := do
  match ← i.setup d with
  | .error f => return (.error f, d)
  | .ok setup =>
    match ← i.plan d setup.options with
    | .error f => return (.error f, d)
    | .ok plan =>
      match ← Output.writeSelections d setup.directory plan.selections with
      | (.error e, d) => return (.error (.write setup.directory e), d)
      | (.ok (), d) => return (.ok (plan, setup.directory), d)

/-! ## 4. The program

The log filter and the colours are settled first, since they decide how faults are shown.  The plan
is shown last, after its files have been written: a run that shows a plan has written it.
-/

/-- What surrounds a run beside the environment and the files.  Usually neither text goes to a
terminal, the current directory has a path, and the output takes all there is. -/
structure Surroundings where
  /-- Whether the output goes to a terminal. -/
  output : Bool := false
  /-- Whether the log goes to a terminal. -/
  errors : Bool := false
  /-- What is wrong with the current directory. -/
  currentDirectory : Option CurrentDirectoryError := none
  /-- How many characters the output takes before it breaks off. -/
  room : Option Nat := none

/-- What comes out of a text. -/
def Surroundings.shown (s : Surroundings) (text : String) : String :=
  match s.room with
  | none => text
  | some room => .ofList (text.toList.take room)

/-- Whether the output breaks off before the end of a text. -/
def Surroundings.cuts (s : Surroundings) (text : String) : Bool :=
  match s.room with
  | none => false
  | some room => room < text.length

/-- What a run leaves behind. -/
structure Outcome where
  code : Nat
  output : String := ""
  errors : String := ""
  disk : Disk

def filterVariable : String := "LANESPLIT_LOG"

/-- The lowest level that is shown where no filter is given, as the only rule. -/
def usualRules (verbose : Bool) : List Rule := [{ rank := rankOf (if verbose then .debug else .info) }]

/-- The rules of the log filter, and a line about a filter that is none. -/
def logRules (verbose : Bool) (env : Environment) : List Rule × List LogLine :=
  match (env.get? filterVariable).filter (· ≠ "") with
  | none => (usualRules verbose, [])
  | some s =>
    match readFilter s with
    | .ok rules => (rules, [])
    | .error e =>
      (usualRules verbose, [⟨.warning, "lanesplit_cli::output", "ignoring invalid "
        ++ filterVariable ++ " value `" ++ s ++ "`: " ++ e.message⟩])

def lineText (coloured : Bool) (l : LogLine) : String :=
  let paint : Plan.Paint := if coloured then levelPaint l.level else {}
  let heading := if l.topic = plainTopic then "" else paint.apply l.level.name ++ ": "
  heading ++ l.text ++ "\n"

/-- The text of the lines that are shown. -/
def logText (coloured : Bool) (rules : List Rule) (lines : List LogLine) : String :=
  String.join ((lines.filter (isShown rules)).map (lineText coloured))

/-- What is wrong with the current directory, if the command needs its path. -/
def Invocation.misses (i : Invocation) (s : Surroundings) : Option CurrentDirectoryError :=
  if i.workspace.isSome then none else s.currentDirectory

/-- Makes the plan and writes it, once the workspace has a path. -/
def Invocation.executeIn (i : Invocation) (s : Surroundings) (d : Disk) :
    Logged (Except Fault (Plan × String) × Disk) :=
  match i.misses s with
  | some e => pure (.error (.currentDirectory e), d)
  | none => i.execute d

/-- Runs the command. -/
def Invocation.run (i : Invocation) (env : Environment) (s : Surroundings) (d : Disk) : Outcome :=
  let coloured := isColoured i.colour env s.errors
  let paint : Plan.Paint := if coloured then pathPaint else {}
  let (rules, early) := logRules i.verbose env
  let executed := i.executeIn s d
  let said := early ++ executed.lines
  let fail (f : Fault) (output : String) (disk : Disk) : Outcome :=
    { code := f.code, output, errors := logText coloured rules (said ++ f.lines paint), disk }
  match executed.value with
  | (.error f, disk) => fail f "" disk
  | (.ok (plan, directory), disk) =>
    let colours : Plan.Colours := if isColoured i.colour env s.output then .vivid else {}
    let text := plan.text i.format colours (some directory)
    if s.cuts text then fail .output (s.shown text) disk
    else { code := codeOk, output := s.shown text, errors := logText coloured rules said, disk }

/-- All variables that the program looks at. -/
def environmentNames : List String :=
  filterVariable :: Part.command.keys.filterMap Key.envName? ++ colourVariables ++ serverVariables

def versionText : String := "lanesplit-cli 0.1.0\n"

def usageText : String :=
  "Usage: lanesplit split --history-dir <DIR> --branch <NAME> [OPTIONS]\n\nOptions:\n"
    ++ String.join (Part.command.keys.map fun k =>
      "  --" ++ k.long ++ (if k.isFlag then "" else " <VALUE>") ++ "\n")
    ++ "  --help\n"

/-- Runs the program. Where it only tells about itself, it does not matter whether all comes out. -/
def run (args : List String) (env : Environment) (s : Surroundings) (d : Disk) : Outcome :=
  match Invocation.read args env with
  | .error .usage => { code := codeUsage, errors := usageText, disk := d }
  | .error .help => { code := codeOk, output := s.shown usageText, disk := d }
  | .error .version => { code := codeOk, output := s.shown versionText, disk := d }
  | .ok i => i.run env s d

end TestLanes.CommandLine
