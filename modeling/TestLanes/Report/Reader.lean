import TestLanes.Markup.Reference
import TestLanes.Markup.Scan
import TestLanes.Report.Case
import TestLanes.Report.Seconds

/-!
# Reading test reports

A report holds `testcase` elements, inside `testsuite` elements or not.  `readEvents` goes once
through its events and keeps the open suites and the open case.

* A case takes its class from its own attribute, else from the name of the innermost open suite.
* A case takes its blocks from its own attribute, else from the nearest open suite that lists any.
* Tags `failure`, `error` and `skipped` inside a case set its outcome; the last one counts.
-/

namespace TestLanes.Report

open Markup (Bytes Tag Event AttributeRun localName)

/-! ## 1. Errors

A report is refused as a whole at the first fault in the order of the text.  A fault of the document
itself comes after those of the elements in front of it.
-/

inductive ReadError where
  | document (e : Markup.SyntaxError)
  | reference (e : Markup.ReferenceError)
  | attributes
  | missingName
  | invalidTime (caseName value : String)
deriving Repr, DecidableEq

def ReadError.message : ReadError → String
  | .document _ | .reference _ => "error parsing JUnit XML"
  | .attributes => "malformed attribute in JUnit XML"
  | .missingName => "`testcase` element is missing the `name` attribute"
  | .invalidTime caseName value => "invalid time `" ++ value ++ "` for test case `" ++ caseName ++ "`"

/-! ## 2. Attributes

Attributes are known by their local names.  Only the values that an element uses are decoded, so
what is wrong with another one does not matter; a fault that ends the attributes of a tag matters
after those in front of it have been decoded.
-/

/-- The attributes that matter, by local name. -/
inductive Field where
  | name
  | className
  | time
  | blocks
deriving Repr, DecidableEq

def Field.ofName? (name : Bytes) : Option Field :=
  let key := localName name
  if key = Bytes.ofString "name" then some .name
  else if key = Bytes.ofString "classname" then some .className
  else if key = Bytes.ofString "time" then some .time
  else if key = Bytes.ofString "enclosing-blocks" then some .blocks
  else none

/-- The texts of the fields that an element uses; of several for one field the last one counts. -/
structure Fields where
  name : Option String := none
  className : Option String := none
  time : Option String := none
  blocks : Option String := none
deriving Repr, DecidableEq

def Fields.set (fs : Fields) (text : String) : Field → Fields
  | .name => { fs with name := some text }
  | .className => { fs with className := some text }
  | .time => { fs with time := some text }
  | .blocks => { fs with blocks := some text }

/-- Takes over one attribute, if it is among the fields that are used. -/
def Fields.addAttribute (used : Field → Bool) (fs : Fields) (a : Markup.Attribute) :
    Except ReadError Fields :=
  match (Field.ofName? a.name).filter used with
  | none => .ok fs
  | some field =>
    match a.text with
    | .ok text => .ok (fs.set text field)
    | .error e => .error (.reference e)

/-- The fields of a tag.  A fault among the attributes counts after those in front of it. -/
def Fields.ofRun (used : Field → Bool) (run : AttributeRun) : Except ReadError Fields := do
  let fs ← run.attributes.foldlM (Fields.addAttribute used) {}
  if run.malformed then .error .attributes else .ok fs

def readBlocks (text : String) : List String :=
  ((Text.splitOn ',' text.toList).map fun piece => String.ofList (Text.trim piece)).filter
    (fun id => !id.isEmpty)

/-! ## 3. Suites and cases

A suite passes its blocks on to the suites and cases inside it until one of them lists blocks of its
own, and its name to the cases directly inside it.  So a suite is kept with the blocks that hold for
it, and only the innermost one is ever looked at.
-/

/-- What an open suite passes on to its cases. -/
structure Suite where
  name : Option String := none
  blocks : List String := []
deriving Repr, DecidableEq

/-- The suite that a tag opens inside `parent`. -/
def Suite.ofTag (parent : Option Suite) (tag : Tag) : Except ReadError Suite := do
  let fs ← Fields.ofRun (fun f => f = .name || f = .blocks) tag.run
  let inherited := (parent.map Suite.blocks).getD []
  .ok ⟨fs.name, (fs.blocks.map readBlocks).getD inherited⟩

/-- The case that a tag opens inside `suite`. -/
def Case.ofTag (suite : Option Suite) (tag : Tag) : Except ReadError Case := do
  let fs ← Fields.ofRun (fun _ => true) tag.run
  match fs.name with
  | none => .error .missingName
  | some name =>
    let inherited := (suite.map Suite.blocks).getD []
    let blocks := (fs.blocks.map readBlocks).getD inherited
    let className := (fs.className.or (suite.bind Suite.name)).getD ""
    match fs.time with
    | none => .ok { className, name, blocks }
    | some text =>
      match readSeconds text with
      | none => .error (.invalidTime name text)
      | some duration => .ok { className, name, duration, blocks }

/-- The outcome that a tag marks. -/
def Status.ofMarker? (name : Bytes) : Option Status :=
  let key := localName name
  if key = Bytes.ofString "failure" then some .failed
  else if key = Bytes.ofString "error" then some .errored
  else if key = Bytes.ofString "skipped" then some .skipped
  else none

theorem Status.ofMarker?_eq_some_iff {name : Bytes} {status : Status} :
    ofMarker? name = some status ↔
      localName name = Bytes.ofString "failure" ∧ status = .failed ∨
        localName name = Bytes.ofString "error" ∧ status = .errored ∨
          localName name = Bytes.ofString "skipped" ∧ status = .skipped := by
  -- no two of the three names are the same
  have herror : Bytes.ofString "error" ≠ Bytes.ofString "failure" := by decide +kernel
  have hskipped : Bytes.ofString "skipped" ≠ Bytes.ofString "failure" := by decide +kernel
  have hskipped' : Bytes.ofString "skipped" ≠ Bytes.ofString "error" := by decide +kernel
  unfold ofMarker?
  dsimp only
  generalize localName name = key
  by_cases h₁ : key = Bytes.ofString "failure"
  · simp [h₁, herror.symm, hskipped.symm, eq_comm]
  by_cases h₂ : key = Bytes.ofString "error"
  · simp [h₂, herror, hskipped'.symm, eq_comm]
  by_cases h₃ : key = Bytes.ofString "skipped"
  · simp [h₃, hskipped, hskipped', eq_comm]
  · simp [h₁, h₂, h₃]

def Case.mark (c : Case) (name : Bytes) : Case :=
  match Status.ofMarker? name with
  | none => c
  | some status => { c with status }

/-! ## 4. The events of a report

The state has the open suites, the open case, and the finished cases.  Elements of other names are
passed over, but a marker inside them still counts for the open case.  A case that is written as one
tag is finished at once; another one is finished by its closing tag.
-/

/-- What is open in the middle of a report, and the cases read so far, the last one first. -/
structure ReadState where
  suites : List Suite := []
  pending : Option Case := none
  cases : List Case := []
deriving Repr, DecidableEq

def isSuite (name : Bytes) : Bool := localName name = Bytes.ofString "testsuite"

def isCase (name : Bytes) : Bool := localName name = Bytes.ofString "testcase"

/-- Takes in one event. -/
def ReadState.step (s : ReadState) : Event → Except ReadError ReadState
  | .start tag =>
    if isSuite tag.name then do
      let suite ← Suite.ofTag s.suites.head? tag
      .ok { s with suites := suite :: s.suites }
    else if isCase tag.name then do
      let c ← Case.ofTag s.suites.head? tag
      .ok { s with pending := some c }
    else .ok { s with pending := s.pending.map (·.mark tag.name) }
  | .empty tag =>
    if isCase tag.name then do
      let c ← Case.ofTag s.suites.head? tag
      .ok { s with cases := c :: s.cases }
    else .ok { s with pending := s.pending.map (·.mark tag.name) }
  | .stop name =>
    if isSuite name then .ok { s with suites := s.suites.tail }
    else if isCase name then
      .ok { s with pending := none, cases := s.pending.toList ++ s.cases }
    else .ok s

def ReadState.run (s : ReadState) (events : List Event) : Except ReadError ReadState :=
  events.foldlM ReadState.step s

/-- The cases of a report, given by its events. -/
def readEvents (events : List Event) : Except ReadError (List Case) := do
  let s ← ReadState.run {} events
  .ok s.cases.reverse

/-- The cases of a report.  A fault of the document counts after those of the events before it. -/
def readReport (document : Bytes) : Except ReadError (List Case) := do
  let scanned := Markup.scan document
  let cases ← readEvents scanned.events
  match scanned.fault with
  | none => .ok cases
  | some e => .error (.document e)

end TestLanes.Report
