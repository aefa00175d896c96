import TestLanes.History.Build

/-!
# Locating results

The search goes back from the build before the current one, through at most `depth` builds.  Then
each finder may name another build to start from, and the search goes back from there in the same
way.  The first build with usable results ends it.

Loading results is by far the most expensive question to an archive, so a search keeps a record of
the builds whose results were loaded.  `loadOnRecord` is the one place that loads and the one place
that puts a build on the record; everything above it joins records by `Search.orContinue`.  A build
that is still running, or that ended badly, is passed over without loading.
-/

namespace TestLanes.History

def defaultDepth : Nat := 20

def topic : String := "lanesplit_runner::history"

/-- Names another build to start from. -/
structure Finder (B : Type) where
  title : String
  find : B → Logged (Option B)

/-- A build with its results. -/
structure Located (B : Type) where
  build : B
  tree : Report.Tree
deriving Repr, DecidableEq

/-- The outcome of a search, and the builds whose results were loaded on the way, in order. -/
structure Search (B : Type) where
  found : Option (Located B) := none
  loaded : List B := []
deriving Repr, DecidableEq

/-- Goes on with another search if nothing is found yet.  The loads of both stay on record. -/
def Search.orContinue {B : Type} (s : Search B) (next : Unit → Logged (Search B)) :
    Logged (Search B) := do
  if s.found.isSome then return s
  else
    let s' ← next ()
    return { s' with loaded := s.loaded ++ s'.loaded }

namespace Archive

variable {B : Type} (a : Archive B)

/-! ## The search in an archive

Each function goes on where the one before it found nothing: a build, a walk back from a build, the
walks from the finders' builds, and the whole search.
-/

def targetFinder : Finder B := ⟨"TargetBranchFinder", a.latestOfTarget⟩

/-- The step that asks the archive for results, and puts the build on record. -/
def loadOnRecord (b : B) : Logged (Except LoadError (Option Report.Tree) × List B) :=
  return (← a.load b, [b])

/-- Looks at the results of a build that is finished and ended well, and takes them if they are
usable. -/
def loadUsable (b : B) : Logged (Search B) := do
  let name := a.name b
  let (results, loaded) ← a.loadOnRecord b
  match results with
  | .ok (some tree) =>
    if 0 < tree.totalCount then
      .say .info topic ("using build " ++ name ++ " as reference")
      return ⟨some ⟨b, tree⟩, loaded⟩
    else
      let claimed := match a.claimedCount b with
        | some n => toString n
        | none => "unknown"
      .say .info topic ("build " ++ name ++ " has no loadable test results (supposed count "
        ++ claimed ++ "), skipping")
      return ⟨none, loaded⟩
  | .ok none =>
    .say .debug topic ("build " ++ name ++ " has no test results, skipping")
    return ⟨none, loaded⟩
  | .error e =>
    .say .warning topic
      ("failed to load (corrupt?) build " ++ name ++ ", skipping: " ++ e.message)
    return ⟨none, loaded⟩

/-- Looks at one build. -/
def inspect (b : B) : Logged (Search B) := do
  if a.isBuilding b then
    .say .debug topic ("build " ++ a.name b ++ " is still building, skipping")
    return {}
  else if !(a.status b).isAccepted then
    .say .debug topic
      ("build " ++ a.name b ++ " has status " ++ (a.status b).title ++ ", skipping")
    return {}
  else a.loadUsable b

/-- Looks at up to `depth` builds from `start` back. -/
def walk (depth : Nat) (start : Option B) : Logged (Search B) :=
  match depth, start with
  | 0, _ | _, none => pure {}
  | depth + 1, some b => do
    (← a.inspect b).orContinue fun _ => do walk depth (← a.previous b)

/-- Walks from the build that each finder names until something is found. -/
def walkFinders (depth : Nat) (current : B) : List (Finder B) → Logged (Search B)
  | [] => pure {}
  | f :: fs => do
    match ← f.find current with
    | none => walkFinders depth current fs
    | some start =>
      .say .debug topic ("continuing search from " ++ a.name start ++ " using " ++ f.title)
      (← a.walk depth (some start)).orContinue fun _ => walkFinders depth current fs

/-- The newest usable results before the current build. -/
def locate (depth : Nat) (finders : List (Finder B)) (current : B) : Logged (Search B) := do
  (← a.walk depth (← a.previous current)).orContinue fun _ => a.walkFinders depth current finders

/-- The results inside the stage of the pipeline with this label, or all of them if there is no
such stage. -/
def narrow (located : Located B) (stage : String) : Logged (Located B) := do
  let name := a.name located.build
  match ← a.graph located.build with
  | none =>
    .say .info topic ("build " ++ name ++ " has no recorded pipeline steps, using all results")
    return located
  | some graph =>
    match graph.findLabeled stage with
    | some node =>
      .say .info topic ("found stage \"" ++ stage ++ "\" in " ++ name)
      return { located with tree := located.tree.forBlock node.id }
    | none =>
      .say .info topic ("stage \"" ++ stage ++ "\" not found in " ++ name
        ++ ", using all results")
      return located

end Archive

end TestLanes.History
