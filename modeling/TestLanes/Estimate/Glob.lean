import TestLanes.Markup.Event

/-!
# Globs

Patterns for paths.  `?` and `*` do not match a slash; `**` between slashes matches any number of
directories; `[...]` is a class of characters, `{a,b}` a choice, and `\` takes the next character as
it is.  Matching goes byte by byte: `rests` gives everything that a piece can leave over.

A glob matches a text if matching all its pieces one after the other can leave nothing.  The list of
what can be left takes the place of a search with steps back: a star leaves every remainder within
the name, a choice what any of its branches leaves, and a sequence what the later pieces leave of
what the first one left.
-/

namespace TestLanes.Estimate

open Markup (Bytes)

/-! ## 1. Pieces and what they match -/

/-- The parts of a glob. -/
inductive Piece where
  | byte (b : UInt8)
  | one
  | many
  /-- `**/` in front. -/
  | leadingDirs
  /-- `/**` at the end. -/
  | trailingDirs
  /-- `/**/` in the middle. -/
  | middleDirs
  | oneOf (negated : Bool) (ranges : List (UInt8 × UInt8))
  | choice (branches : List (List Piece))
deriving Repr, Inhabited

def slash : UInt8 := 0x2F

/-- A text and everything that is left when bytes in front are dropped. -/
def tails : Bytes → List Bytes
  | [] => [[]]
  | b :: bs => (b :: bs) :: tails bs

def tailsInName : Bytes → List Bytes
  | [] => [[]]
  | b :: bs => (b :: bs) :: if b = slash then [] else tailsInName bs

def afterSlashes : Bytes → List Bytes
  | [] => []
  | b :: bs => if b = slash then bs :: afterSlashes bs else afterSlashes bs

/-- What follows one byte that the test accepts. -/
def afterByte (accepts : UInt8 → Bool) : Bytes → List Bytes
  | [] => []
  | b :: bs => if accepts b then [bs] else []

def afterSlash : Bytes → List Bytes := afterByte (· = slash)

/-- Whether a branch has nothing to match; such branches do not count. -/
def isBlankBranch : List Piece → Bool
  | [] => true
  | .choice [] :: ps => isBlankBranch ps
  | _ => false

mutual

/-- What can be left of a text when the piece matches what is in front. -/
def Piece.rests : Piece → Bytes → List Bytes
  | .byte b, s => afterByte (· = b) s
  | .one, s => afterByte (· ≠ slash) s
  | .many, s => tailsInName s
  | .leadingDirs, s => s :: afterSlashes s
  | .trailingDirs, s => (afterSlash s).flatMap tails
  | .middleDirs, s => (afterSlash s).flatMap fun t => t :: afterSlashes t
  | .oneOf negated ranges, s =>
    afterByte (fun b => (ranges.any fun (lo, hi) => lo ≤ b && b ≤ hi) != negated) s
  | .choice [], s => [s]
  | .choice (ps :: pss), s => restsOfAny (ps :: pss) s

/-- What can be left when the pieces match one after the other. -/
def restsOfAll : List Piece → Bytes → List Bytes
  | [], s => [s]
  | p :: ps, s => ((p.rests s).flatMap (restsOfAll ps)).eraseDups

/-- What can be left when one of the branches matches. -/
def restsOfAny : List (List Piece) → Bytes → List Bytes
  | [], _ => []
  | ps :: pss, s => restsOfAll ps s ++ restsOfAny pss s

end

abbrev Glob := List Piece

/-- Whether a glob is `**` alone, which matches everything. -/
def Glob.matchesAll : Glob → Bool
  | [.leadingDirs] => true
  | _ => false

/-- Whether a glob matches a text as a whole. -/
def Glob.accepts (g : Glob) (path : String) : Bool :=
  g.matchesAll || (restsOfAll g (Bytes.ofString path)).any List.isEmpty

/-! ## 2. Reading globs

The reader keeps the branches of the innermost open braces and those of the braces around them, all
last ones first; closing a pair makes one `choice` piece of its branches and puts it into the branch
around it.  Two stars are directories only between slashes or at an end of the branch, and what
stands before them tells which: for this the reader remembers the character in front.

A class is read as ranges of characters and kept as ranges of bytes.
-/

/-- The branches that are being read inside one pair of braces, all last ones first. -/
structure Level where
  done : List (List Piece)
  current : List Piece
deriving Repr

/-- What has been read of a glob: the innermost braces, and those around them. -/
structure GlobState where
  inner : Level
  outer : List Level
deriving Repr

namespace GlobState

def start : GlobState := ⟨⟨[], []⟩, []⟩

def push (s : GlobState) (p : Piece) : GlobState :=
  { s with inner := { s.inner with current := p :: s.inner.current } }

def pushChar (s : GlobState) (c : Char) : GlobState :=
  (Bytes.ofString (String.singleton c)).foldl (fun s b => s.push (.byte b)) s

def openChoice (s : GlobState) : GlobState := ⟨⟨[], []⟩, s.inner :: s.outer⟩

def nextBranch (s : GlobState) : GlobState :=
  { s with inner := ⟨s.inner.current.reverse :: s.inner.done, []⟩ }

def closeChoice (s : GlobState) : Option GlobState :=
  match s.outer with
  | [] => none
  | level :: outer =>
    let branches := (s.inner.current.reverse :: s.inner.done).reverse
    some (push ⟨level, outer⟩ (.choice (branches.filter fun ps => !isBlankBranch ps)))

def finish (s : GlobState) : Option Glob :=
  if s.outer.isEmpty then some s.inner.current.reverse else none

/-- Adds `**`, in the place of what precedes it. -/
def pushDirs (s : GlobState) (atEnd : Bool) : GlobState :=
  match s.inner.current with
  | .leadingDirs :: _ | .trailingDirs :: _ => s
  | _ :: ps =>
    { s with inner := { s.inner with
        current := (if atEnd then .trailingDirs else .middleDirs) :: ps } }
  | [] => s

end GlobState

def bytesOf (c : Char) : Bytes := Bytes.ofString (String.singleton c)

/-- The ranges of bytes that a range of characters stands for.  All bytes but the last one of the
lower bound, and all but the first one of the upper bound, stand for themselves. -/
def byteRanges (lo hi : Char) : Option (List (UInt8 × UInt8)) :=
  if lo = hi then some ((bytesOf lo).map fun b => (b, b))
  else
    match (bytesOf lo).reverse, bytesOf hi with
    | a :: before, b :: behind =>
      if a ≤ b then
        some (before.reverse.map (fun x => (x, x)) ++ (a, b) :: behind.map fun x => (x, x))
      else none
    | _, _ => none

/-- The ranges of a class up to its end, and what follows it.  `ranges` has those read so far, the
last one first; `isOpen` tells that the last character was a hyphen that makes a range. -/
def readClass (first isOpen : Bool) (ranges : List (Char × Char)) :
    List Char → Option (List (Char × Char) × List Char)
  | [] => none
  | c :: cs =>
    if c = ']' ∧ !first then
      some ((if isOpen then ('-', '-') :: ranges else ranges).reverse, cs)
    else if c = '-' ∧ !first ∧ !isOpen then readClass false true ranges cs
    else
      match isOpen, ranges with
      | true, (lo, _) :: rs => if c < lo then none else readClass false false ((lo, c) :: rs) cs
      | _, rs => readClass false false ((c, c) :: rs) cs

/-- A class up to its end, and what follows it. -/
def takeClass (cs : List Char) : Option (Piece × List Char) := do
  let (negated, cs) := match cs with
    | '!' :: cs | '^' :: cs => (true, cs)
    | cs => (false, cs)
  let (ranges, rest) ← readClass true false [] cs
  let ranges ← ranges.mapM fun (lo, hi) => byteRanges lo hi
  some (.oneOf negated ranges.flatten, rest)

/-- What two stars in a row mean, from the character before them, and what follows them. -/
def takeStars (s : GlobState) (before : Option Char) (rest : List Char) :
    GlobState × List Char :=
  let twoStars := (s.push .many).push .many
  if s.inner.current.isEmpty then
    match rest with
    | [] => (s.push .leadingDirs, [])
    | '/' :: rest => (s.push .leadingDirs, rest)
    | rest => (twoStars, rest)
  else if before = some '/' ∨
      (!s.outer.isEmpty ∧ (before = some ',' ∨ before = some '{')) then
    match rest with
    | [] => (s.pushDirs true, [])
    | '/' :: rest => (s.pushDirs false, rest)
    | c :: rest =>
      if (c = ',' ∨ c = '}') ∧ !s.outer.isEmpty then (s.pushDirs true, c :: rest)
      else (twoStars, c :: rest)
  else (twoStars, rest)

/-- Takes in the characters of a glob one after the other; `before` is the one in front.  The first
argument bounds the number of steps. -/
def readGlob : Nat → GlobState → Option Char → List Char → Option GlobState
  | _, s, _, [] => some s
  | 0, _, _, _ => none
  | n + 1, s, before, c :: cs =>
    match c, cs with
    | '?', cs => readGlob n (s.push .one) (some '?') cs
    | '*', '*' :: cs =>
      let (s, rest) := takeStars s before cs
      readGlob n s (some (if rest.length < cs.length then '/' else '*')) rest
    | '*', cs => readGlob n (s.push .many) (some '*') cs
    | '[', cs => do
      let (p, rest) ← takeClass cs
      readGlob n (s.push p) (some ']') rest
    | '{', cs => readGlob n s.openChoice (some '{') cs
    | '}', cs => do readGlob n (← s.closeChoice) (some '}') cs
    | ',', cs =>
      readGlob n (if s.outer.isEmpty then s.pushChar ',' else s.nextBranch) (some ',') cs
    | '\\', [] => none
    | '\\', c :: cs => readGlob n (s.pushChar c) (some c) cs
    | c, cs => readGlob n (s.pushChar c) (some c) cs

/-- The glob that a text spells. -/
def Glob.read (pattern : String) : Option Glob :=
  (readGlob pattern.length .start none pattern.toList).bind GlobState.finish

end TestLanes.Estimate
