import TestLanes.Files.Tree

/-!
# Changes of files

What must be done to one file tree to get another one, as a list of single steps: in each directory
files are removed first and written afterwards.

The rest of the program only computes the tree that a run leaves behind; these steps carry it over
to a real disk.  A file whose content is the same is left alone.
-/

namespace TestLanes.Files

/-- One step. -/
inductive Change where
  | makeDirectory (path : String)
  | remove (path : String)
  | writeFile (path : String) (content : ByteArray)

def entriesOf : Option Entry → Entries
  | some (.directory es) => es
  | _ => []

def removals (path : String) (old new : Entries) : List Change :=
  (old.filter fun e => (find? e.1 new).isNone).map fun e => .remove (join path e.1)

mutual

/-- The steps from an entry, or nothing, to another entry. -/
def changes (path : String) (old : Option Entry) (new : Entry) : List Change :=
  match new, old with
  | .file content, some (.file before) =>
    if content = before then [] else [.writeFile path content]
  | .file content, _ => [.writeFile path content]
  | .directory es, some (.directory before) =>
    removals path before es ++ changesBelow path before es
  | .directory es, _ => .makeDirectory path :: changesBelow path [] es

/-- The steps from the entries of a directory to other ones. -/
def changesBelow (path : String) (old : Entries) : List (String × Entry) → List Change
  | [] => []
  | (name, e) :: es => changes (join path name) (find? name old) e ++ changesBelow path old es

end

end TestLanes.Files
