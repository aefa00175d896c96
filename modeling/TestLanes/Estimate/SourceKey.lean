import TestLanes.Text.Blank

/-!
# Keys of source files

A test source lies below `src/test/java/`; its key is the part of its path behind that, without the
extension `.java`.

A root in front of the path goes before all others; where it leaves no key, the last root counts
that follows a slash and leaves one.  A key has at least one character and lies on one line, so that
a file whose path below the root has a line feed has no key although a glob matches it.
-/

namespace TestLanes.Estimate

open Text (dropPrefix? dropSuffix?)

def sourceRoot : List Char := "src/test/java/".toList

def sourceExtension : List Char := ".java".toList

/-- A file below the source root without its extension, which is neither empty nor of many lines. -/
def stem? (rest : List Char) : Option (List Char) :=
  (dropSuffix? sourceExtension rest).filter fun key => !key.isEmpty && !key.contains '\n'

/-- The key behind the last source root that follows a slash and has one. -/
def innerKey? : List Char → Option (List Char)
  | [] => none
  | c :: cs =>
    match innerKey? cs with
    | some key => some key
    | none => if c = '/' then (dropPrefix? sourceRoot cs).bind stem? else none

/-- The key of a source file.  A source root in front of the path goes before all others. -/
def sourceKey? (path : String) : Option String :=
  let outer := (dropPrefix? sourceRoot path.toList).bind stem?
  (outer.or (innerKey? path.toList)).map String.ofList

end TestLanes.Estimate
