import TestLanes.Files.Tree
import TestLanes.History.Locator
import TestLanes.Pipeline.Decode
import TestLanes.Report.Reader

/-!
# Histories on disk

A store is a directory with this layout, in which everything is optional:

```
branches/<branch>/branch.toml
branches/<branch>/builds/<number>/build.toml
branches/<branch>/builds/<number>/flow.toml
branches/<branch>/builds/<number>/results/**/*.xml
```

What is missing is read as the least that can be said: no builds, a build that was not built, no
steps, no results.  What is there and cannot be read is a fault for the branch of the current build
only; a build or a target branch that cannot be read gives a warning, since the search for results
can pass it over.
-/

namespace TestLanes.History

open Files (Disk join)

def storeTopic : String := "lanesplit_runner::history::store"

/-! ## 1. Metadata

A document that is not there is told from one that cannot be read or does not fit.  Fields that are
not given have the values of a build about which nothing is known.
-/

/-- Why a store cannot be read. -/
inductive StoreError where
  | rootNotFound (path : String)
  | readDirectory (path : String)
  | readMetadata (path : String)
  | parseMetadata (path : String)
deriving Repr, DecidableEq

def StoreError.message : StoreError → String
  | .rootNotFound path => "history directory `" ++ path ++ "` does not exist"
  | .readDirectory path => "error reading directory `" ++ path ++ "`"
  | .readMetadata path => "error reading metadata file `" ++ path ++ "`"
  | .parseMetadata path => "error parsing metadata file `" ++ path ++ "`"

/-- What a document says, if there is one. -/
def readDocument (d : Disk) (path : String)
    (decode : List (String × Toml.Value) → Option α) : Except StoreError (Option α) :=
  match d.readText path with
  | .error .notFound => .ok none
  | .error _ => .error (.readMetadata path)
  | .ok text =>
    match (Toml.parse text).bind decode with
    | some a => .ok (some a)
    | none => .error (.parseMetadata path)

/-- What is recorded about a build beside its results and steps. -/
structure Metadata where
  status : BuildStatus := .notBuilt
  isBuilding : Bool := false
  testCount : Option Nat := none
  displayName : Option String := none
deriving Repr, DecidableEq

/-- The metadata that a document gives. -/
def Metadata.ofToml? (entries : List (String × Toml.Value)) : Option Metadata := do
  let status ← Toml.ifGiven (·.variant? BuildStatus.ofName?) (Toml.get? entries "status")
  let isBuilding ← Toml.ifGiven Toml.Value.boolean? (Toml.get? entries "building")
  some {
    status := status.getD .notBuilt
    isBuilding := isBuilding.getD false
    testCount := ← Toml.ifGiven Toml.Value.natural? (Toml.get? entries "test-count")
    displayName := ← Toml.ifGiven Toml.Value.text? (Toml.get? entries "display-name") }

def changeTarget? (entries : List (String × Toml.Value)) : Option (Option String) :=
  Toml.ifGiven Toml.Value.text? (Toml.get? entries "change-target")

/-! ## 2. Branches

The builds of a branch are the directories whose names spell a number.  Only the number is kept and
the directory of a build is spelled from it again, so a directory such as `007` is listed as a build
whose files are looked for in `7`.
-/

/-- A branch and the numbers of its recorded builds in ascending order. -/
structure Branch where
  name : String
  directory : String
  changeTarget : Option String
  builds : List Nat
deriving Repr, DecidableEq

def buildsDirectory (branchDirectory : String) : String := join branchDirectory "builds"

def Branch.buildDirectory (b : Branch) (number : Nat) : String :=
  join (buildsDirectory b.directory) (toString number)

/-- The number in front of the place that a number has, or would have, among those recorded. -/
def Branch.before? (b : Branch) (number : Nat) : Option Nat :=
  match b.builds.findIdx fun n => decide (number ≤ n) with
  | 0 => none
  | place + 1 => b.builds[place]?

/-- The number that the name of a build's directory spells. -/
def buildNumber? (d : Disk) (directory : String) (e : String × Files.Entry) : Option Nat :=
  if d.isDirectory (join directory e.1) then Text.readNumeral? e.1 else none

/-- The numbers of recorded builds in ascending order. -/
def buildNumbers (d : Disk) (directory : String) (es : Files.Entries) : List Nat :=
  (es.filterMap (buildNumber? d directory)).mergeSort (fun a b => decide (a ≤ b))

/-- A store on a disk. -/
structure Store where
  disk : Disk
  root : String

namespace Store

/-- The store at a directory, which must exist. -/
def ofRoot (disk : Disk) (root : String) : Except StoreError Store :=
  if disk.isDirectory root then .ok ⟨disk, root⟩ else .error (.rootNotFound root)

/-- The numbers of the builds in a directory, which may be missing. -/
def listBuilds (s : Store) (name directory : String) : Logged (Except StoreError (List Nat)) :=
  match s.disk.list directory with
  | .ok es =>
    let others := es.filter fun e => (buildNumber? s.disk directory e).isNone
    ⟨.ok (buildNumbers s.disk directory es), others.map fun e =>
      ⟨.debug, storeTopic, "ignoring non-build entry " ++ join directory e.1⟩⟩
  | .error .notFound => do
    .say .debug storeTopic ("branch " ++ name ++ " has no recorded builds")
    return .ok []
  | .error _ => pure (.error (.readDirectory directory))

/-- The branch with the name; one that is not there has no builds. -/
def branch (s : Store) (name : String) : Logged (Except StoreError Branch) := do
  let directory := join (join s.root "branches") name
  match readDocument s.disk (join directory "branch.toml") changeTarget? with
  | .error e => return .error e
  | .ok target =>
    let builds ← s.listBuilds name (buildsDirectory directory)
    return builds.map fun builds => ⟨name, directory, target.getD none, builds⟩

end Store

/-! ## 3. Builds

A build carries the branch it belongs to, its number and its target.  The target is passed back
along a branch: a build that is reached from the current one is asked for the current one's target
first.
-/

/-- A build of a branch; it need not be recorded. -/
structure StoredBuild where
  branch : Branch
  number : Nat
  changeTarget : Option String
  metadata : Metadata
deriving Repr, DecidableEq

namespace StoredBuild

def directory (b : StoredBuild) : String := b.branch.buildDirectory b.number

def name (b : StoredBuild) : String :=
  b.metadata.displayName.getD (b.branch.name ++ " #" ++ toString b.number)

/-- A build with another target, if one is given. -/
def withTarget (b : StoredBuild) (target : Option String) : StoredBuild :=
  { b with changeTarget := target.or b.changeTarget }

end StoredBuild

/-- The cases of reports, in order. -/
def readReports : List (String × ByteArray) → Except LoadError (List (String × List Report.Case))
  | [] => .ok []
  | (path, content) :: files =>
    match Report.readReport content.toList with
    | .error _ => .error (.parse path)
    | .ok cases => do .ok ((path, cases) :: (← readReports files))

/-- Whether the path of a file ends like that of a report. -/
def isReport (path : String) : Bool :=
  ((Files.pieces path).getLast?.bind Files.extension?) = some "xml"

/-- Why there is no current build. -/
inductive CurrentError where
  | store (e : StoreError)
  /-- The newest build has the last number there is. -/
  | noNumberLeft
deriving Repr, DecidableEq

namespace Store

/-- A build with its metadata.  Unreadable metadata counts as none. -/
def load (s : Store) (branch : Branch) (number : Nat) : Logged StoredBuild := do
  let path := join (branch.buildDirectory number) "build.toml"
  match readDocument s.disk path Metadata.ofToml? with
  | .ok metadata => return ⟨branch, number, branch.changeTarget, metadata.getD {}⟩
  | .error e =>
    .say .warning storeTopic ("treating build " ++ branch.name ++ " #" ++ toString number
      ++ " as not built: " ++ e.message)
    return ⟨branch, number, branch.changeTarget, {}⟩

/-- The results of a build: the cases of all its reports in one tree. -/
def loadTree (s : Store) (b : StoredBuild) : Except LoadError (Option Report.Tree) := do
  let directory := join b.directory "results"
  match s.disk.list directory with
  | .error _ => .ok none
  | .ok es =>
    match (Files.filesBelow directory es).filter fun f => isReport f.1 with
    | [] => .ok none
    | files =>
      let reports ← readReports files
      .ok (some (.merge b.name (reports.map fun (path, cases) => .ofCases path cases)))

/-- The recorded build before a build. -/
def previous (s : Store) (b : StoredBuild) : Logged (Option StoredBuild) :=
  match b.branch.before? b.number with
  | none => pure none
  | some n => do
    let earlier ← s.load b.branch n
    return some (earlier.withTarget b.changeTarget)

/-- The newest recorded build of the branch that a change is made for. -/
def latestOfTarget (s : Store) (b : StoredBuild) : Logged (Option StoredBuild) :=
  match b.changeTarget with
  | none => pure none
  | some target => do
    match ← s.branch target with
    | .error e =>
      .say .warning storeTopic ("failed to read target branch " ++ target ++ ": " ++ e.message)
      return none
    | .ok branch =>
      match branch.builds.getLast? with
      | none =>
        .say .debug storeTopic ("target branch " ++ target ++ " has no recorded builds")
        return none
      | some n => return some (← s.load branch n)

def graph (s : Store) (b : StoredBuild) : Logged (Option Pipeline.Graph) := do
  match readDocument s.disk (join b.directory "flow.toml") Pipeline.Graph.ofToml? with
  | .ok graph => return graph
  | .error e =>
    .say .warning storeTopic ("ignoring flow graph for build " ++ b.name ++ ": " ++ e.message)
    return none

def archive (s : Store) : Archive StoredBuild where
  name := StoredBuild.name
  status b := b.metadata.status
  isBuilding b := b.metadata.isBuilding
  claimedCount b := b.metadata.testCount
  load b := pure (s.loadTree b)
  previous := s.previous
  latestOfTarget := s.latestOfTarget
  graph := s.graph

/-- The number of the build after all those recorded. -/
def nextNumber (branch : Branch) : Except CurrentError Nat :=
  match branch.builds.getLast? with
  | none => .ok 1
  | some n => if n + 1 < Text.wordBound then .ok (n + 1) else .error .noNumberLeft

/-- The build to make a plan for. -/
def currentBuild (s : Store) (name : String) (number : Option Nat) :
    Logged (Except CurrentError StoredBuild) := do
  match ← s.branch name with
  | .error e => return .error (.store e)
  | .ok branch =>
    match number.elim (nextNumber branch) .ok with
    | .error e => return .error e
    | .ok n =>
      .say .debug storeTopic ("current build is " ++ name ++ " #" ++ toString n)
      return .ok (← s.load branch n)

end Store

def CurrentError.message : CurrentError → String
  | .store e => e.message
  | .noNumberLeft => "attempt to add with overflow"

end TestLanes.History
