import Mathlib.Data.List.Basic
import TestLanes.Proofs.Markup.Elements
import TestLanes.Proofs.Report.Fields

/-!
# Case elements

What a report says is told here by its elements, without a reader that goes through it.  There is a
case element for each case tag, in their order (`map_tag_caseElementsOfAll`).  It has suites around
it and tags inside, and from these come the class, the blocks and the outcome of its case
(`CaseElement.result`).  A case can be read if it has a name, and an acceptable time if one is given
(`CaseElement.Readable`).

Whether an element is written as one tag or as two makes no difference to the case elements
(`caseElementsOfAll_longAll`).  Taking out all other elements, and all marks outside of cases, takes
away nothing but tags inside of cases that mark nothing (`caseElementsOfAll_pruneAll`).
-/

namespace TestLanes.Report

open Markup (Bytes Element Tag localName)
open Markup.Element (elements_induction longAll longAll_cons tagsOfAll tagsOfAll_append
  tagsOfAll_cons tagsOfAll_longAll)

/-! ## 1. Names of elements

Suites, cases and marks are told apart by their local names, so a tag is at most one of these.
-/

/-- No element is both a suite and a case. -/
theorem isCase_of_isSuite {name : Bytes} (h : isSuite name = true) : isCase name = false := by
  have hname : localName name = Bytes.ofString "testsuite" := of_decide_eq_true h
  rw [isCase, hname]
  decide +kernel

theorem isSuite_of_isCase {name : Bytes} (h : isCase name = true) : isSuite name = false := by
  cases hsuite : isSuite name with
  | true => exact absurd h (Bool.not_eq_true _ ▸ isCase_of_isSuite hsuite)
  | false => rfl

/-- Suites mark nothing. -/
theorem ofMarker?_of_isSuite {name : Bytes} (h : isSuite name = true) :
    Status.ofMarker? name = none := by
  have hname : localName name = Bytes.ofString "testsuite" := of_decide_eq_true h
  refine Option.eq_none_iff_forall_ne_some.mpr fun status hmark => ?_
  rw [Status.ofMarker?_eq_some_iff, hname] at hmark
  rcases hmark with ⟨hsame, -⟩ | ⟨hsame, -⟩ | ⟨hsame, -⟩ <;>
    exact absurd hsame (by decide +kernel)

/-! ## 2. One case

What a case element says is a function of its own tag, the tags around it and the tags inside.
Whether it can be read depends on its own tag alone, and so does the error if it cannot; the tags
inside count only through the last mark among them.
-/

/-- A case element: the tags of the suites around it, the innermost first, its own tag, and the
tags of the elements in it. -/
structure CaseElement where
  suites : List Tag
  tag : Tag
  inside : List Tag

/-- The blocks that the first of some tags lists, if one does. -/
def blocksOf (tags : List Tag) : List String :=
  ((tags.findSome? (fieldText? .blocks)).map readBlocks).getD []

/-- The outcome that the last mark among some tags sets. -/
def outcomeOf (tags : List Tag) : Status :=
  (tags.filterMap fun t => Status.ofMarker? t.name).getLast?.getD .passed

namespace CaseElement

def name? (e : CaseElement) : Option String := fieldText? .name e.tag

/-- The time of the case; no time is given for a case that took none. -/
def duration? (e : CaseElement) : Option Duration :=
  match fieldText? .time e.tag with
  | none => some 0
  | some text => (readSeconds text).map fun m => m

/-- The class of the case: its own, else the name of the innermost suite. -/
def className (e : CaseElement) : String :=
  ((fieldText? .className e.tag).or (e.suites.head?.bind (fieldText? .name))).getD ""

/-- Whether the case can be read. -/
def Readable (e : CaseElement) : Prop := e.name?.isSome = true ∧ e.duration?.isSome = true

instance (e : CaseElement) : Decidable e.Readable := inferInstanceAs (Decidable (_ ∧ _))

/-- The case; its blocks are its own, else those of the nearest suite that lists any. -/
def result (e : CaseElement) : Case where
  className := e.className
  name := e.name?.getD ""
  duration := e.duration?.getD 0
  status := outcomeOf e.inside
  blocks := blocksOf (e.tag :: e.suites)

/-- The case, or what is wrong with it. -/
def read (e : CaseElement) : Except ReadError Case :=
  match e.name? with
  | none => .error .missingName
  | some name =>
    match e.duration? with
    | none => .error (.invalidTime name ((fieldText? .time e.tag).getD ""))
    | some _ => .ok e.result

theorem read_eq_ok_iff {e : CaseElement} {c : Case} :
    e.read = .ok c ↔ e.Readable ∧ c = e.result := by
  unfold read Readable
  cases e.name? with
  | none => simp
  | some name =>
    cases e.duration? with
    | none => simp
    | some duration => simp [eq_comm]

/-- The cases of some elements can be read together if each can be read. -/
theorem mapM_read_eq_ok_iff {es : List CaseElement} {cs : List Case} :
    es.mapM read = .ok cs ↔ (∀ e ∈ es, e.Readable) ∧ cs = es.map result := by
  induction es generalizing cs with
  | nil => simp [pure, Except.pure, eq_comm]
  | cons e es ih =>
    simp only [mapM_cons_eq_ok_iff, read_eq_ok_iff, ih, List.forall_mem_cons, List.map_cons]
    constructor
    · rintro ⟨c, rest, ⟨hreadable, rfl⟩, ⟨hall, rfl⟩, rfl⟩
      exact ⟨⟨hreadable, hall⟩, rfl⟩
    · rintro ⟨⟨hreadable, hall⟩, rfl⟩
      exact ⟨_, _, ⟨hreadable, rfl⟩, ⟨hall, rfl⟩, rfl⟩

/-- The element with only those tags inside that matter. -/
def trim (matters : Tag → Bool) (e : CaseElement) : CaseElement :=
  { e with inside := e.inside.filter matters }

/-- Tags that mark nothing do not matter. -/
theorem read_trim {matters : Tag → Bool}
    (h : ∀ t, (Status.ofMarker? t.name).isSome = true → matters t = true) (e : CaseElement) :
    (e.trim matters).read = e.read := by
  have hmarks : (e.inside.filter matters).filterMap (fun t => Status.ofMarker? t.name)
      = e.inside.filterMap fun t => Status.ofMarker? t.name := by
    rw [List.filterMap_filter]
    refine List.filterMap_congr fun t _ => ?_
    cases hmark : Status.ofMarker? t.name with
    | none => exact ite_self none
    | some status => exact if_pos (h t (by rw [hmark]; rfl))
  have hresult : (e.trim matters).result = e.result := by
    simp only [result, trim, className, name?, duration?, outcomeOf, hmarks]
  simp only [read, hresult]
  rfl

end CaseElement

/-! ## 3. All cases of a document

Case elements are collected along the elements of a document, with the suites that are open.  A case
in a case is collected as well; that there is none is asked for where reports are read.  The
inductions go through elements by `elements_induction`: the children of the first element, and what
follows it.
-/

/-- The open suites inside an element. -/
def opened (tag : Tag) (suites : List Tag) : List Tag :=
  if isSuite tag.name then tag :: suites else suites

mutual

/-- The case elements of an element that stands inside of suites. -/
def caseElements (suites : List Tag) : Element → List CaseElement
  | .mk tag children _ =>
    (if isCase tag.name then [⟨suites, tag, tagsOfAll children⟩] else [])
      ++ caseElementsOfAll (opened tag suites) children

/-- The case elements of elements in the order in which they begin. -/
def caseElementsOfAll (suites : List Tag) : List Element → List CaseElement
  | [] => []
  | e :: es => caseElements suites e ++ caseElementsOfAll suites es

end

theorem caseElementsOfAll_cons (suites : List Tag) (tag : Tag) (children : List Element)
    (short : Bool) (es : List Element) :
    caseElementsOfAll suites (.mk tag children short :: es)
      = (if isCase tag.name then [⟨suites, tag, tagsOfAll children⟩] else [])
        ++ caseElementsOfAll (opened tag suites) children ++ caseElementsOfAll suites es := rfl

theorem caseElementsOfAll_append (suites : List Tag) (es es' : List Element) :
    caseElementsOfAll suites (es ++ es')
      = caseElementsOfAll suites es ++ caseElementsOfAll suites es' := by
  induction es with
  | nil => rfl
  | cons e es ih => rw [List.cons_append, caseElementsOfAll, ih, caseElementsOfAll, List.append_assoc]

/-- Elements without cases in them have no case elements. -/
theorem caseElementsOfAll_eq_nil {es : List Element} (h : ∀ t ∈ tagsOfAll es, isCase t.name = false)
    (suites : List Tag) : caseElementsOfAll suites es = [] := by
  induction es using elements_induction generalizing suites with
  | nil => rfl
  | cons tag children short es ihchildren ih =>
    rw [tagsOfAll_cons] at h
    obtain ⟨htag, hrest⟩ := List.forall_mem_cons.mp h
    obtain ⟨hchildren, hes⟩ := List.forall_mem_append.mp hrest
    rw [caseElementsOfAll_cons, htag, ihchildren hchildren, ih hes]
    rfl

/-- There is one case element for each case tag, in the order of the tags. -/
theorem map_tag_caseElementsOfAll (suites : List Tag) (es : List Element) :
    (caseElementsOfAll suites es).map CaseElement.tag
      = (tagsOfAll es).filter fun t => isCase t.name := by
  induction es using elements_induction generalizing suites with
  | nil => rfl
  | cons tag children short es ihchildren ih =>
    rw [caseElementsOfAll_cons, List.map_append, List.map_append, ihchildren, ih, tagsOfAll_cons,
      List.filter_cons, List.filter_append]
    cases isCase tag.name <;> rfl

/-- **Both ways of writing an element without children** have the same case elements. -/
theorem caseElementsOfAll_longAll (suites : List Tag) (es : List Element) :
    caseElementsOfAll suites (longAll es) = caseElementsOfAll suites es := by
  induction es using elements_induction generalizing suites with
  | nil => rfl
  | cons tag children short es ihchildren ih =>
    rw [longAll_cons, caseElementsOfAll_cons, caseElementsOfAll_cons, ihchildren, ih,
      tagsOfAll_longAll]

/-! ## 4. What does not matter

An element that is taken out leaves its children in its place, so that suites and cases in it stay
where they are among the others.  Inside of a case a mark stays wherever it stands.
-/

/-- Whether an element matters: a suite or a case, or a mark inside of a case. -/
def matters (inCase : Bool) (tag : Tag) : Bool :=
  isSuite tag.name || isCase tag.name || (inCase && (Status.ofMarker? tag.name).isSome)

theorem matters_of_name {inCase : Bool} {tag : Tag}
    (h : isSuite tag.name = true ∨ isCase tag.name = true) : matters inCase tag = true := by
  unfold matters
  rcases h with h | h
  · rw [h]; rfl
  · rw [h, Bool.or_true]; rfl

mutual

/-- What is in an element without the elements that do not matter; what is in these stays. -/
def prune (inCase : Bool) : Element → List Element
  | .mk tag children short =>
    if matters inCase tag then [.mk tag (pruneAll (inCase || isCase tag.name) children) short]
    else pruneAll inCase children

/-- Elements without those that do not matter. -/
def pruneAll (inCase : Bool) : List Element → List Element
  | [] => []
  | e :: es => prune inCase e ++ pruneAll inCase es

end

theorem pruneAll_cons_of_pos {inCase : Bool} {tag : Tag} (h : matters inCase tag = true)
    (children : List Element) (short : Bool) (es : List Element) :
    pruneAll inCase (.mk tag children short :: es)
      = .mk tag (pruneAll (inCase || isCase tag.name) children) short :: pruneAll inCase es := by
  rw [pruneAll, prune, if_pos h, List.singleton_append]

theorem pruneAll_cons_of_neg {inCase : Bool} {tag : Tag} (h : matters inCase tag = false)
    (children : List Element) (short : Bool) (es : List Element) :
    pruneAll inCase (.mk tag children short :: es)
      = pruneAll inCase children ++ pruneAll inCase es := by
  rw [pruneAll, prune, if_neg (Bool.not_eq_true _ ▸ h)]

/-- Inside of a case the tags that matter stay. -/
theorem tagsOfAll_pruneAll (es : List Element) :
    tagsOfAll (pruneAll true es) = (tagsOfAll es).filter (matters true) := by
  induction es using elements_induction with
  | nil => rfl
  | cons tag children short es ihchildren ih =>
    rw [tagsOfAll_cons, List.filter_cons, List.filter_append]
    cases htag : matters true tag with
    | true => rw [pruneAll_cons_of_pos htag, tagsOfAll_cons, Bool.true_or, ihchildren, ih]; rfl
    | false => rw [pruneAll_cons_of_neg htag, tagsOfAll_append, ihchildren, ih]; rfl

/-- No tags are added. -/
theorem mem_tagsOfAll_of_pruneAll {inCase : Bool} {es : List Element} {t : Tag}
    (h : t ∈ tagsOfAll (pruneAll inCase es)) : t ∈ tagsOfAll es := by
  induction es using elements_induction generalizing inCase with
  | nil => exact h
  | cons tag children short es ihchildren ih =>
    rw [tagsOfAll_cons, List.mem_cons, List.mem_append]
    cases htag : matters inCase tag with
    | true =>
      rw [pruneAll_cons_of_pos htag, tagsOfAll_cons, List.mem_cons, List.mem_append] at h
      exact h.imp_right (Or.imp ihchildren ih)
    | false =>
      rw [pruneAll_cons_of_neg htag, tagsOfAll_append, List.mem_append] at h
      exact .inr (Or.imp ihchildren ih h)

/-- The tags of suites and cases stay. -/
theorem mem_tagsOfAll_pruneAll {inCase : Bool} {es : List Element} {t : Tag}
    (hname : isSuite t.name = true ∨ isCase t.name = true) (h : t ∈ tagsOfAll es) :
    t ∈ tagsOfAll (pruneAll inCase es) := by
  induction es using elements_induction generalizing inCase with
  | nil => exact h
  | cons tag children short es ihchildren ih =>
    rw [tagsOfAll_cons, List.mem_cons, List.mem_append] at h
    cases htag : matters inCase tag with
    | true =>
      rw [pruneAll_cons_of_pos htag, tagsOfAll_cons, List.mem_cons, List.mem_append]
      exact h.imp_right (Or.imp ihchildren ih)
    | false =>
      rw [pruneAll_cons_of_neg htag, tagsOfAll_append, List.mem_append]
      refine Or.imp ihchildren ih (h.resolve_left fun heq => ?_)
      rw [← heq, matters_of_name hname] at htag
      exact nomatch htag

/-- **Taking out what does not matter** leaves the same case elements, but for tags inside. -/
theorem caseElementsOfAll_pruneAll (inCase : Bool) (suites : List Tag) (es : List Element) :
    caseElementsOfAll suites (pruneAll inCase es)
      = (caseElementsOfAll suites es).map (CaseElement.trim (matters true)) := by
  induction es using elements_induction generalizing inCase suites with
  | nil => rfl
  | cons tag children short es ihchildren ih =>
    rw [caseElementsOfAll_cons, List.map_append, List.map_append]
    cases htag : matters inCase tag with
    | true =>
      rw [pruneAll_cons_of_pos htag, caseElementsOfAll_cons, ihchildren, ih]
      cases hcase : isCase tag.name with
      | true =>
        rw [Bool.or_true, tagsOfAll_pruneAll]
        rfl
      | false => rfl
    | false =>
      -- neither a suite nor a case, so it opens nothing and is no case element itself
      obtain ⟨hnames, -⟩ := Bool.or_eq_false_iff.mp htag
      obtain ⟨hsuite, hcase⟩ := Bool.or_eq_false_iff.mp hnames
      rw [pruneAll_cons_of_neg htag, caseElementsOfAll_append, ihchildren, ih, hcase, opened,
        hsuite]
      rfl

end TestLanes.Report
