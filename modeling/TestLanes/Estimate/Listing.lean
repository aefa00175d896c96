import TestLanes.Estimate.Glob
import TestLanes.Estimate.Workspace
import TestLanes.Files.Tree

/-!
# Workspaces on disk

The files of a directory whose paths, seen from there, match one of some patterns.

The walk is depth first with names in ascending order, so that the listing is the same for every
order in which a directory gives its entries.  All patterns are read before the walk: a pattern that
is no glob is reported even where the root cannot be listed.
-/

namespace TestLanes.Estimate

open Files (Disk Entry)

def topic : String := "lanesplit_runner::estimate"

def withSlashes (path : String) : String :=
  String.ofList (path.toList.map fun c => if c = '\\' then '/' else c)

def filePaths (e : Entry) : List String := (e.files "").map fun f => withSlashes f.1

/-- The files below `root` that match one of the patterns. -/
def listFiles (d : Disk) (root : String) (patterns : List String) :
    Except EstimateError (List String) :=
  match patterns.mapM Glob.read, d.entry root with
  | none, _ => .error .badGlob
  | some _, .error _ => .error (.walk root)
  | some globs, .ok e => .ok ((filePaths e).filter fun path => globs.any (·.accepts path))

/-- The directory `root` as a workspace. -/
def diskWorkspace (d : Disk) (root : String) : Workspace := fun patterns => do
  let found := listFiles d root patterns
  match found with
  | .ok paths =>
    .say .debug topic ("found " ++ toString paths.length
      ++ " files matching test source patterns under " ++ root)
    return found
  | .error _ => return found

end TestLanes.Estimate
