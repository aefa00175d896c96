import TestLanes.Files.Path

/-!
# File trees

Directories with files and directories in them, and the directory that paths start from.  A path is
followed name by name, so `a/../b` needs `a`.

A system need not list the entries of a directory in any order, and a file is found by its name
wherever it stands.  Where an order is wanted it is made: the walk below a directory goes through
the names at each directory in ascending order (`filesBelow`).

There are no links, no permissions and no other processes: a step on a tree fails for the reasons of
`FileError` only.  Failures from outside, such as a full disk, are inputs of the functions that can
meet them and are not told from the tree.
-/

namespace TestLanes.Files

/-! ## 1. Entries

An entry is reached by a way, the list of names down to it, without points and empty names.  Looking
up and changing what is at the end of a way recurse on the way; a walk recurses on the entry.  The
walk gives each entry's files together with the entry's name and sorts those groups, which comes to
the same as sorting the entries, and lets the recursion stay on the entries as they stand.
-/

/-- A file or a directory. -/
inductive Entry where
  | file (content : ByteArray)
  | directory (entries : List (String × Entry))
deriving Inhabited

abbrev Entries := List (String × Entry)

def find? (name : String) (es : Entries) : Option Entry :=
  (es.find? (·.1 = name)).map (·.2)

/-- Puts an entry in its place, in place of the one with its name. -/
def put (name : String) (e : Entry) : Entries → Entries
  | [] => [(name, e)]
  | (k, x) :: es =>
    if name < k then (name, e) :: (k, x) :: es
    else if name = k then (name, e) :: es
    else (k, x) :: put name e es

def erase (name : String) (es : Entries) : Entries := es.filter (·.1 ≠ name)

def Entry.isDirectory : Entry → Bool
  | .directory _ => true
  | .file _ => false

/-- The entry at the end of a way down. -/
def Entry.at? (e : Entry) : List String → Option Entry
  | [] => some e
  | name :: names =>
    match e with
    | .directory es => (find? name es).bind (·.at? names)
    | .file _ => none

/-- Changes the entries of the directory at the end of a way down. -/
def Entry.alter (f : Entries → Entries) : List String → Entry → Entry
  | _, .file content => .file content
  | [], .directory es => .directory (f es)
  | name :: names, .directory es =>
    match find? name es with
    | some e => .directory (put name (e.alter f names) es)
    | none => .directory es

/-- Puts what has a name in its place among what is in ascending order of names. -/
def insertByName {α : Type} (x : String × α) : List (String × α) → List (String × α)
  | [] => [x]
  | y :: ys => if x.1 ≤ y.1 then x :: y :: ys else y :: insertByName x ys

def byName {α : Type} (xs : List (String × α)) : List (String × α) := xs.foldr insertByName []

mutual

/-- The files of an entry, each with its path, as they are met on a walk. -/
def Entry.files (path : String) : Entry → List (String × ByteArray)
  | .file content => [(path, content)]
  | .directory es => (byName (filesByName path es)).flatMap (·.2)

/-- The files of each entry of a directory, under the name of the entry. -/
def filesByName (path : String) : List (String × Entry) → List (String × List (String × ByteArray))
  | [] => []
  | (name, e) :: es => (name, e.files (join path name)) :: filesByName path es

end

/-- The files below a directory as they are met on a walk. -/
def filesBelow (path : String) (es : Entries) : List (String × ByteArray) :=
  (byName (filesByName path es)).flatMap (·.2)

/-! ## 2. Ways

A path is turned into a way by one step per piece, from the root or from the current directory.  A
step tells why it fails, because callers treat what is missing unlike what is in the way: no
directory of builds is an empty branch, a file in its place is a fault.
-/

/-- Why a path leads nowhere or cannot be used. -/
inductive FileError where
  | notFound
  | notADirectory
  | isADirectory
  | alreadyThere
  | nameTooLong
  | badPath
  | notText
deriving Repr, DecidableEq

/-- A file tree with the way to the directory that paths start from. -/
structure Disk where
  root : Entry
  current : List String
deriving Inhabited

def nameLimit : Nat := 255

def pathLimit : Nat := 4095

namespace Disk

/-- One piece of a path further. -/
def step (d : Disk) (way : List String) (piece : String) : Except FileError (List String) :=
  match d.root.at? way with
  | none => .error .notFound
  | some (.file _) => .error .notADirectory
  | some (.directory es) =>
    if piece = "" ∨ piece = "." then .ok way
    else if piece = ".." then .ok way.dropLast
    else if nameLimit < piece.utf8ByteSize then .error .nameTooLong
    else if (find? piece es).isSome then .ok (way ++ [piece])
    else .error .notFound

def start (d : Disk) (path : String) : List String := if isAbsolute path then [] else d.current

/-- Fails on a path that no system takes. -/
def checkPath (path : String) : Except FileError Unit :=
  if path.toList.contains '\x00' then .error .badPath
  else if pathLimit < path.utf8ByteSize then .error .nameTooLong
  else .ok ()

/-- The way that a path takes. -/
def way (d : Disk) (path : String) : Except FileError (List String) := do
  checkPath path
  if path.isEmpty then .error .notFound
  else (pieces path).foldlM d.step (d.start path)

/-- The entry that a path leads to. -/
def entry (d : Disk) (path : String) : Except FileError Entry := do
  match d.root.at? (← d.way path) with
  | some e => .ok e
  | none => .error .notFound

def isDirectory (d : Disk) (path : String) : Bool :=
  match d.entry path with
  | .ok e => e.isDirectory
  | .error _ => false

def isFile (d : Disk) (path : String) : Bool :=
  match d.entry path with
  | .ok e => !e.isDirectory
  | .error _ => false

def list (d : Disk) (path : String) : Except FileError Entries := do
  match ← d.entry path with
  | .directory es => .ok es
  | .file _ => .error .notADirectory

def readBytes (d : Disk) (path : String) : Except FileError ByteArray := do
  match ← d.entry path with
  | .file content => .ok content
  | .directory _ => .error .isADirectory

def readText (d : Disk) (path : String) : Except FileError String := do
  match String.fromUTF8? (← d.readBytes path) with
  | some s => .ok s
  | none => .error .notText

/-! ## 3. Changes

Making directories goes piece by piece like following a path, and makes the directory at each piece
where there is nothing.  It stops at the first fault with the tree as it is by then: what is made
stays.  Removing and writing change the one directory at the end of the way.
-/

/-- Changes the entries of the directory at the end of a way. -/
def alter (d : Disk) (way : List String) (f : Entries → Entries) : Disk :=
  { d with root := d.root.alter f way }

/-- One piece of a path further, making a directory where there is nothing.  Also tells the tree
where it fails. -/
def stepMaking (s : Disk × List String) (piece : String) :
    Except (FileError × Disk) (Disk × List String) :=
  let (d, way) := s
  match d.step way piece with
  | .ok way => .ok (d, way)
  | .error .notFound => .ok (d.alter way (put piece (.directory [])), way ++ [piece])
  | .error e => .error (e, d)

/-- Makes a directory and all those that lead to it.  What is made before a fault stays. -/
def makeDirectories (d : Disk) (path : String) : Except FileError Unit × Disk :=
  match checkPath path with
  | .error e => (.error e, d)
  | .ok () =>
    match (pieces path).foldlM stepMaking (d, d.start path) with
    | .error (e, d) => (.error e, d)
    | .ok (d', way) =>
      match d'.root.at? way with
      | some (.directory _) => (.ok (), d')
      | _ => (.error .alreadyThere, d')

/-- A way without its last name, and that name. -/
def cutWay (way : List String) : Option (List String × String) :=
  way.getLast?.map fun name => (way.dropLast, name)

/-- Removes a file, or a directory with all it holds. -/
def remove (d : Disk) (path : String) : Except FileError Disk := do
  match cutWay (← d.way path) with
  | some (way, name) => .ok (d.alter way (erase name))
  | none => .error .isADirectory

/-- Writes a file and makes the directories that lead to it. -/
def write (d : Disk) (directory name : String) (content : ByteArray) : Except FileError Disk :=
  match d.makeDirectories directory with
  | (.error e, _) => .error e
  | (.ok (), d) => do
    let way ← if directory.isEmpty then .ok d.current else d.way directory
    .ok (d.alter way (put name (.file content)))

end Disk

end TestLanes.Files
