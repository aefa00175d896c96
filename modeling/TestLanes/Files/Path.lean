import TestLanes.Text.Blank

/-!
# Paths

A path is a text with slashes between its names.  Joining, taking off a parent and reading an
extension are operations on the text; where a path leads is told in `TestLanes.Files.Tree`.

Two readings of a path occur.  Following a path goes through all its pieces, since `a/.` needs `a`
to be a directory.  Comparing paths goes through the components, where empty pieces and points
behind the first piece do not count: `below?` compares components and gives the pieces behind them
as they are written, so that what is printed about a file keeps its spelling.
-/

namespace TestLanes.Files

def pieces (path : String) : List String :=
  (Text.splitOn '/' path.toList).map String.ofList

def isAbsolute (path : String) : Bool := path.toList.head? = some '/'

def join (parent child : String) : String :=
  if isAbsolute child || parent.isEmpty then child
  else if parent.toList.getLast? = some '/' then parent ++ child
  else parent ++ "/" ++ child

def isFiller (piece : String) : Bool := piece = "" || piece = "."

/-- The pieces that count: the root or the first piece, and all later ones that lead somewhere. -/
def components (path : String) : List String :=
  match pieces path with
  | [] => []
  | p :: ps =>
    let first := if p ≠ "" then [p] else if isAbsolute path then ["/"] else []
    first ++ ps.filter (!isFiller ·)

/-- The pieces after the first `n` that count. -/
def dropComponents : Nat → List String → List String
  | 0, ps => ps
  | n + 1, ps => (dropLater n ps.tail).dropWhile isFiller
where
  /-- Drops pieces that are not the first one. -/
  dropLater : Nat → List String → List String
    | 0, ps => ps
    | n + 1, ps => dropLater n (ps.dropWhile isFiller).tail

/-- Pieces without those at the end that lead nowhere; the first one stays. -/
def trimPieces : List String → List String
  | [] => []
  | p :: ps => p :: (ps.reverse.dropWhile isFiller).reverse

/-- What is left of a path below a directory, if it is below it. -/
def below? (directory path : String) : Option String :=
  let start := components directory
  if (Text.dropPrefix? start (components path)).isSome then
    some (String.intercalate "/" (trimPieces (dropComponents start.length (pieces path))))
  else none

/-! ## Extensions

The extension is what follows the last point of a name; a name that only begins with a point, and
the name of the directory above, have none.  `extension?_eq_some_iff` says the same without
reference to how the point is found.
-/

/-- What follows the last point of a file name, unless that point is in front. -/
def extension? (name : String) : Option String :=
  let cs := name.toList
  if name = ".." || !cs.contains '.' then none
  else
    let after := (cs.reverse.takeWhile (· ≠ '.')).reverse
    if after.length + 1 = cs.length then none else some (String.ofList after)

theorem extension?_of_toList {name : String} {stem after : List Char}
    (hname : name.toList = stem ++ '.' :: after) (hlast : '.' ∉ after) (hup : name ≠ "..") :
    extension? name = if stem = [] then none else some (String.ofList after) := by
  simp only [extension?, hname, Text.reverse_takeWhile_reverse hlast]
  cases stem with
  | nil => simp [hup]
  | cons c stem =>
    have hshort : after.length ≠ stem.length + (after.length + 1) := by omega
    simp [hup, hshort]

theorem extension?_eq_some_iff {name ext : String} :
    extension? name = some ext ↔ name ≠ ".." ∧ '.' ∉ ext.toList ∧
      ∃ stem, stem ≠ [] ∧ name.toList = stem ++ '.' :: ext.toList := by
  constructor
  · intro h
    have hup : name ≠ ".." := by
      rintro rfl
      cases h
    have hpoint : '.' ∈ name.toList := by
      refine Decidable.byContradiction fun hnone => ?_
      simp [extension?, hnone] at h
    obtain ⟨stem, after, hname, hlast⟩ := Text.exists_last_separator hpoint
    rw [extension?_of_toList hname hlast hup] at h
    split at h
    · cases h
    · next hstem =>
      obtain rfl := Option.some.inj h
      rw [String.toList_ofList]
      exact ⟨hup, hlast, stem, hstem, hname⟩
  · rintro ⟨hup, hlast, stem, hstem, hname⟩
    rw [extension?_of_toList hname hlast hup, if_neg hstem, String.ofList_toList]

end TestLanes.Files
