import TestLanes.Files.Tree
import TestLanes.Log
import TestLanes.Selection

/-!
# Output directories

Each lane has a file in the output directory.  Writing first removes the files of all earlier plans
and then writes the new ones, so that the directory never holds files of two plans.

The steps are settled before the first of them is taken, from the entries of the directory and the
selections alone.  Whether a step can be taken is asked when its turn comes: it can be blocked by
what is in the directory, or refused for a reason from outside, and then the run stops with the
entries as they are by then.
-/

namespace TestLanes.Output

open Files (Disk Entries Entry join)

/-! ## 1. Steps

A step is about one name.  The lane files of a directory are those whose names begin with `split.`
and end with `.txt`, whatever stands between (`isLaneFile_iff`); a name in which the two overlap is
not among them.  Writing takes the place of what has the name; it cannot be interrupted in the
middle of a file, since a file is written as a draft first.
-/

/-- Whether a name is one of a lane's file. -/
def isLaneFile (name : String) : Bool :=
  match Text.dropPrefix? "split.".toList name.toList with
  | some rest => (Text.dropSuffix? ".txt".toList rest).isSome
  | none => false

theorem isLaneFile_iff {name : String} :
    isLaneFile name = true ↔ ∃ middle, name = "split." ++ middle ++ ".txt" := by
  have happend : ∀ middle : List Char, name.toList = "split.".toList ++ (middle ++ ".txt".toList) ↔
      name = "split." ++ String.ofList middle ++ ".txt" := by
    intro middle
    rw [← String.toList_inj]
    simp
  unfold isLaneFile
  constructor
  · intro h
    split at h
    · next rest hrest =>
      obtain ⟨middle, hmiddle⟩ := Option.isSome_iff_exists.mp h
      obtain rfl := Text.dropSuffix?_eq_some_iff.mp hmiddle
      exact ⟨.ofList middle, (happend middle).mp (Text.dropPrefix?_eq_some_iff.mp hrest)⟩
    · cases h
  · rintro ⟨middle, hname⟩
    have hlist := (happend middle.toList).mpr (by rw [hname, String.ofList_toList])
    rw [Text.dropPrefix?_eq_some_iff.mpr hlist]
    exact Option.isSome_iff_exists.mpr ⟨middle.toList, Text.dropSuffix?_eq_some_iff.mpr rfl⟩

/-- The text of a lane's file: one line for each pattern. -/
def fileText (s : Selection) : String := String.join (s.patterns.map (· ++ "\n"))

/-- One change of the directory. -/
inductive Step where
  | remove (name : String)
  | write (name : String) (selection : Selection)
deriving Repr, DecidableEq

def Step.name : Step → String
  | .remove name => name
  | .write name _ => name

def removals (es : Entries) : List Step :=
  (es.filter fun e => isLaneFile e.1).map fun e => .remove e.1

/-- The writing of new lane files; `lane` is the number of the first one. -/
def writes (lane : Nat) : List Selection → List Step
  | [] => []
  | s :: ss => .write (s.fileName lane) s :: writes (lane + 1) ss

def steps (es : Entries) (selections : List Selection) : List Step :=
  removals es ++ writes 0 selections

/-- Whether a step cannot be taken: a directory is not removed like a file, nor written over. -/
def Step.isBlocked (es : Entries) : Step → Bool
  | .remove name | .write name _ => ((Files.find? name es).map Entry.isDirectory).getD false

def Step.apply (es : Entries) : Step → Entries
  | .remove name => Files.erase name es
  | .write name s => Files.put name (.file (fileText s).toUTF8) es

/-- Takes steps until one fails, be it blocked or refused for a reason that is not in the
entries. -/
def run (refuses : Step → Bool) : Entries → List Step → Entries × Option Step
  | es, [] => (es, none)
  | es, s :: ss => if s.isBlocked es || refuses s then (es, some s) else run refuses (s.apply es) ss

/-! ## 2. Writing to a disk

The directory is made if it is missing, listed, and changed by the steps.  Each of the three can
fail, and so can each step; the fault names the path that was being worked on.
-/

def topic : String := "lanesplit_runner::sink"

inductive WriteError where
  | createDirectory (path : String)
  | readDirectory (path : String)
  | removeStale (path : String)
  | writeFile (path : String)
deriving Repr, DecidableEq

def WriteError.message : WriteError → String
  | .createDirectory path => "error creating splits directory `" ++ path ++ "`"
  | .readDirectory path => "error reading splits directory `" ++ path ++ "`"
  | .removeStale path => "error removing stale split file `" ++ path ++ "`"
  | .writeFile path => "error writing split file `" ++ path ++ "`"

def pathFor (directory : String) (lane : Nat) (s : Selection) : String :=
  join directory (s.fileName lane)

/-- Where a file is written before it is moved to its place; six of the characters differ each
time. -/
def draft : String := ".atomicwrite000000/tmpfile.tmp"

def Step.paths (directory : String) : Step → List String
  | .remove name => [join directory name]
  | .write name _ => [join directory draft, join directory name]

/-- Whether a step needs a name or a path that no system takes. -/
def Step.isRefused (directory : String) (s : Step) : Bool :=
  Files.nameLimit < s.name.utf8ByteSize
    || (s.paths directory).any fun path => !(Disk.checkPath path).isOk

/-- The line about a step, and whether it comes before the step is taken. -/
def Step.line (directory : String) : Step → Bool × LogLine
  | .remove name =>
    (true, ⟨.debug, topic, "removing stale split file " ++ join directory name⟩)
  | .write name s =>
    (false, ⟨.debug, topic, "wrote " ++ toString s.patterns.length ++ " patterns to "
      ++ join directory name⟩)

def Step.fault (directory : String) : Step → WriteError
  | .remove name => .removeStale (join directory name)
  | .write name _ => .writeFile (join directory name)

/-- The lines about steps of which `failed` is the first one that is not taken. -/
def linesOf (directory : String) (failed : Option Step) : List Step → List LogLine
  | [] => []
  | s :: ss =>
    let (early, line) := s.line directory
    if failed = some s then (if early then [line] else [])
    else line :: linesOf directory failed ss

/-- Writes the files of all lanes to a directory, which is made if it is missing. -/
def writeSelections (d : Disk) (directory : String) (selections : List Selection) :
    Logged (Except WriteError Unit × Disk) :=
  match d.makeDirectories directory with
  | (.error _, d) => pure (.error (.createDirectory directory), d)
  | (.ok (), d) =>
    match d.list directory, d.way directory with
    | .ok es, .ok way =>
      let todo := steps es selections
      let (es', failed) := run (Step.isRefused directory) es todo
      let result := match failed with
        | none => .ok ()
        | some s => .error (s.fault directory)
      ⟨(result, d.alter way fun _ => es'), linesOf directory failed todo⟩
    | _, _ => pure (.error (.readDirectory directory), d)

end TestLanes.Output
