import TestLanes.Granularity.Basic
import TestLanes.Parallelism.Basic

/-!
# Arguments

Arguments are read from the left into settings by key.  Those in front of the command `split` and
those behind it are read on their own, so each of them may be given once in either part.

What may be given is a table: a key has a long name, perhaps a letter and a variable, and a test for
its values.  The readers of long names and of letters are written against the table, and adding a
value is the one place where a second value or a wrong one is refused.
-/

namespace TestLanes.CommandLine

/-! ## 1. Keys

Every key has its own long name; two have a letter.  A flag stands for itself and has the value
`true`.
-/

/-- What an argument sets. -/
inductive Key where
  | verbose
  | colour
  | historyDirectory
  | branch
  | build
  | changeTarget
  | workspace
  | outDirectory
  | settingsFile
  | profile
  | parallelism
  | granularity
  | inclusions
  | stage
  | estimate
  | format
deriving Repr, DecidableEq

namespace Key

def long : Key → String
  | verbose => "verbose"
  | colour => "color"
  | historyDirectory => "history-dir"
  | branch => "branch"
  | build => "build"
  | changeTarget => "change-target"
  | workspace => "workspace"
  | outDirectory => "out-dir"
  | settingsFile => "config-file"
  | profile => "profile"
  | parallelism => "parallelism"
  | granularity => "granularity"
  | inclusions => "generate-inclusions"
  | stage => "stage"
  | estimate => "estimate-tests-from-files"
  | format => "message-format"

def letter? : Key → Option Char
  | verbose => some 'v'
  | profile => some 'P'
  | _ => none

/-- The variable that gives a key where no argument does. -/
def envName? : Key → Option String
  | verbose => some "LANESPLIT_VERBOSE"
  | colour => some "LANESPLIT_COLOR"
  | historyDirectory => some "LANESPLIT_HISTORY_DIR"
  | branch => some "LANESPLIT_BRANCH"
  | profile => some "LANESPLIT_PROFILE"
  | _ => none

/-- Whether a key stands for itself, without a value. -/
def isFlag : Key → Bool
  | verbose | inclusions | estimate => true
  | _ => false

/-- Whether a text can be the value of a key. -/
def accepts : Key → String → Bool
  | verbose, v | inclusions, v | estimate, v => v = "true" || v = "false"
  | colour, v => v = "auto" || v = "always" || v = "never"
  | build, v => (Text.readNumeral? v).isSome
  | parallelism, v => (Parallelism.read v).toOption.isSome
  | granularity, v => (Granularity.ofName? v).isSome
  | format, v => v = "human" || v = "json" || v = "json-pretty"
  | _, _ => true

def shared : List Key := [verbose, colour]

def ofSplit : List Key :=
  [historyDirectory, branch, build, changeTarget, workspace, outDirectory, settingsFile, profile,
    parallelism, granularity, inclusions, stage, estimate, format]

end Key

/-! ## 2. Parts

In front of the command only the keys may stand that make sense for every command.  A wish for help
or for the version ends the reading at once, even if something wrong follows.
-/

inductive Part where
  | front
  | command
deriving Repr, DecidableEq

def Part.keys : Part → List Key
  | .front => Key.shared
  | .command => Key.shared ++ Key.ofSplit

inductive Stop where
  | usage
  | help
  | version
deriving Repr, DecidableEq

/-- What stands behind a hyphen or two: a key, or a wish for information. -/
inductive Meaning where
  | key (k : Key)
  | stop (s : Stop)
deriving Repr, DecidableEq

abbrev Given := List (Key × String)

def Given.get? (given : Given) (k : Key) : Option String := (given.find? (·.1 = k)).map (·.2)

/-- Adds a value, which must be right and the first one for its key. -/
def Given.add (given : Given) (k : Key) (v : String) : Except Stop Given :=
  if (given.get? k).isSome || !k.accepts v then .error .usage else .ok ((k, v) :: given)

def Part.long? (p : Part) (name : String) : Option Meaning :=
  if name = "help" then some (.stop .help)
  else if name = "version" && p = .front then some (.stop .version)
  else (p.keys.find? (·.long = name)).map .key

def Part.letter? (p : Part) (c : Char) : Option Meaning :=
  if c = 'h' then some (.stop .help)
  else if c = 'V' && p = .front then some (.stop .version)
  else (p.keys.find? (·.letter? = some c)).map .key

/-! ## 3. Reading

The value of a key stands behind an equals sign, or behind its letter, or is the next argument; in
the last case the key waits for it.  Two hyphens alone end the options.
-/

/-- What has been read, and a key whose value is the next argument. -/
structure Reading where
  given : Given
  waiting : Option Key := none
deriving Repr, DecidableEq

/-- Reads letters behind one hyphen.  A key with a value takes the other characters as its value. -/
def readLetters (p : Part) (given : Given) : List Char → Except Stop Reading
  | [] => .ok { given }
  | c :: cs =>
    match p.letter? c with
    | none => .error .usage
    | some (.stop s) => .error s
    | some (.key k) =>
      if k.isFlag then do readLetters p (← given.add k "true") cs
      else
        match cs with
        | [] => .ok ⟨given, some k⟩
        | '=' :: v => do .ok { given := ← given.add k (String.ofList v) }
        | v => do .ok { given := ← given.add k (String.ofList v) }

def cutAtEquals : List Char → List Char × Option (List Char)
  | [] => ([], none)
  | c :: cs => if c = '=' then ([], some cs) else (c :: (cutAtEquals cs).1, (cutAtEquals cs).2)

/-- Reads what stands behind two hyphens. -/
def readLong (p : Part) (given : Given) (cs : List Char) : Except Stop Reading :=
  let (name, value) := cutAtEquals cs
  match p.long? (String.ofList name), value with
  | none, _ => .error .usage
  | some (.stop s), none => .error s
  | some (.stop _), some _ => .error .usage
  | some (.key k), none =>
    if k.isFlag then do .ok { given := ← given.add k "true" } else .ok ⟨given, some k⟩
  | some (.key k), some v =>
    if k.isFlag then .error .usage else do .ok { given := ← given.add k (String.ofList v) }

/-- Whether an argument can be a value of its own: it has no hyphen in front, or is one. -/
def isValue (arg : String) : Bool := arg.toList.head? ≠ some '-' || arg = "-"

/-- Reads one argument that begins with a hyphen and has more characters. -/
def readOption (p : Part) (given : Given) (arg : String) : Except Stop Reading :=
  match arg.toList with
  | '-' :: '-' :: cs => readLong p given cs
  | '-' :: cs => readLetters p given cs
  | _ => .error .usage

/-- Reads arguments up to the first one that is neither an option nor a value of one, and gives the
rest from there. -/
def readPart (p : Part) (given : Given) (waiting : Option Key) :
    List String → Except Stop (Given × List String)
  | [] => if waiting.isSome then .error .usage else .ok (given, [])
  | arg :: rest =>
    match waiting with
    | some k => if isValue arg then do readPart p (← given.add k arg) none rest else .error .usage
    | none =>
      if arg = "--" then if rest.isEmpty then .ok (given, []) else .error .usage
      else if isValue arg then .ok (given, arg :: rest)
      else do
        let r ← readOption p given arg
        readPart p r.given r.waiting rest

/-- The values in front of the command and those behind it. -/
structure Arguments where
  front : Given
  command : Given
deriving Repr, DecidableEq

/-- Reads all arguments.  The command must be `split`, with no further words behind it. -/
def readArguments (args : List String) : Except Stop Arguments := do
  let (front, rest) ← readPart .front [] none args
  match rest with
  | "split" :: rest =>
    let (command, rest) ← readPart .command [] none rest
    if rest.isEmpty then .ok ⟨front, command⟩ else .error .usage
  | "help" :: topics =>
    if topics = [] ∨ topics = ["split"] ∨ topics = ["help"] then .error .help else .error .usage
  | _ => .error .usage

end TestLanes.CommandLine
