import TestLanes.Files.Tree
import TestLanes.Settings.Decode
import TestLanes.Text.Lossy
import TestLanes.Toml.Reader

/-!
# Settings on disk

The settings file is the one that is asked for, or else `.config/lanesplit.toml` of the workspace,
which may be missing.

Whether a file is required makes all the difference for one that cannot be read: the usual file is
passed over, the one that is asked for is a fault.  A file that can be read and is no document is a
fault in either case.
-/

namespace TestLanes.Settings

open Files (Disk join)

def topic : String := "lanesplit_runner::config"

def usualPath : String := ".config/lanesplit.toml"

/-! ## 1. Faults

A fault names the file; its cause is told apart from it, as the two are shown on lines of their own.
-/

/-- Why a settings file cannot be used. -/
inductive Cause where
  | missing (path : String)
  | unreadable
  | wrongValue (fault : Fault)
deriving Repr, DecidableEq

/-- A settings file that cannot be used. -/
structure LoadError where
  file : String
  cause : Cause
deriving Repr, DecidableEq

def LoadError.message (e : LoadError) : String :=
  "failed to parse lanesplit config at `" ++ e.file ++ "`"

def Cause.detail? : Cause → Option String
  | .missing path => some ("configuration file \"" ++ path ++ "\" not found")
  | .unreadable => none
  | .wrongValue fault => fault.detail

/-! ## 2. Finding and reading

A path without a file at it is tried once more with an extension added to its last name.  The
content is read as text even where it is not well-formed, and a mark of the encoding in front is
dropped.
-/

/-- A path with an extension added to its last name, if it has one. -/
def withExtension? (path : String) : Option String :=
  match (Files.pieces path).reverse.dropWhile Files.isFiller with
  | [] => none
  | last :: front =>
    if last = ".." then none
    else some (String.intercalate "/" ((last ++ ".toml") :: front).reverse)

/-- The path at which a settings file is found: as it is given, or with an extension. -/
def findFile (d : Disk) (path : String) : Option String :=
  if d.isFile path then some path else (withExtension? path).filter d.isFile

/-- The bytes of a text without the mark of its encoding in front. -/
def dropMark : List UInt8 → List UInt8
  | 0xEF :: 0xBB :: 0xBF :: bs => bs
  | bs => bs

/-- The layer that the content of a file gives. -/
def readLayer (content : ByteArray) : Option Layer :=
  (Toml.parse (Text.decode (dropMark content.toList))).bind Layer.ofToml?

/-- The layer of a file. -/
def loadLayer (d : Disk) (path : String) (isRequired : Bool) : Except Cause Layer :=
  match findFile d path with
  | none => if isRequired then .error (.missing path) else .ok []
  | some found =>
    match d.readBytes found with
    | .error _ => if isRequired then .error .unreadable else .ok []
    | .ok content =>
      match readLayer content with
      | some l => .ok l
      | none => .error .unreadable

/-! ## 3. Loading

The layer of the file is merged over the built-in one, and the settings are read from the result;
the unknown keys are those of the result too.
-/

/-- Keys of a file that no setting has. -/
structure Warning where
  file : String
  root : String
  keys : List String
deriving Repr, DecidableEq

def Warning.text (w : Warning) : String :=
  let keys := match w.keys with
    | [key] => "key: " ++ key
    | keys => "keys:\n" ++ String.join (keys.map ("\n  - " ++ ·))
  "in config file " ++ (Files.below? w.root w.file).getD w.file
    ++ ", ignoring unknown configuration " ++ keys

/-- Settings with the workspace that they are for. -/
structure Loaded where
  root : String
  profiles : Profiles
  warning : Option Warning := none
deriving Repr, DecidableEq

def Loaded.profile (l : Loaded) (name : String) : Except UnknownProfile Profile :=
  l.profiles.resolve l.root name

/-- The settings for a workspace, from the file that is asked for or the usual one. -/
def load (d : Disk) (root : String) (file : Option String) : Except LoadError Loaded :=
  let path := file.getD (join root usualPath)
  match loadLayer d path file.isSome with
  | .error cause => .error ⟨path, cause⟩
  | .ok layer =>
    let settings := layer.merge builtIn
    match decode settings with
    | .error fault => .error ⟨path, .wrongValue fault⟩
    | .ok profiles =>
      let warning := match unknownKeys settings with
        | [] => none
        | keys => some ⟨path, root, keys⟩
      .ok ⟨root, profiles, warning⟩

/-- The settings with the warning as a log line. -/
def loadLogged (d : Disk) (root : String) (file : Option String) :
    Logged (Except LoadError Loaded) :=
  match load d root file with
  | .error e => pure (.error e)
  | .ok loaded => do
    match loaded.warning with
    | none => return .ok loaded
    | some w =>
      .say .warning topic w.text
      return .ok loaded

def loadBuiltIn (root : String) : Except Fault Loaded := do
  .ok ⟨root, ← decode builtIn, none⟩

end TestLanes.Settings
