import TestLanes.Proofs.Report.CaseElement

/-!
# Reading a report is reading its case elements

A run over the events of elements comes back to the suites that were open before
(`run_inside`, `run_outside`).  Inside of a case it collects the marks, and outside of cases it adds
the cases of the case elements that it goes through.  So a report whose cases are not nested has the
cases of its case elements (`readEvents_eventsOfAll`).
-/

namespace TestLanes.Report

open Markup (Bytes Element Event Tag localName)
open Markup.Element (elements_induction eventsOfAll eventsOfAll_cons longAll tagsOfAll
  tagsOfAll_cons tagsOfAll_longAll)

/-! ## 1. Suites and cases of tags

The state of a run keeps the open suites as they were read, each with the blocks that it inherits.
`suitesOf` gives this state for the tags of the open suites.  With it, what is made of a tag in the
run is what the description of case elements says.
-/

/-- The open suites with these tags, the innermost first. -/
def suitesOf : List Tag → List Suite
  | [] => []
  | tag :: tags => ⟨fieldText? .name tag, blocksOf (tag :: tags)⟩ :: suitesOf tags

/-- What is inherited are the blocks of the nearest suite that lists any. -/
theorem blocks_head?_suitesOf (tags : List Tag) :
    ((suitesOf tags).head?.map Suite.blocks).getD [] = blocksOf tags := by
  cases tags <;> rfl

theorem name_head?_suitesOf (tags : List Tag) :
    (suitesOf tags).head?.bind Suite.name = tags.head?.bind (fieldText? .name) := by
  cases tags <;> rfl

/-- Blocks that are listed go before those that are inherited. -/
theorem blocksOf_cons (tag : Tag) (tags : List Tag) :
    blocksOf (tag :: tags) = ((fieldText? .blocks tag).map readBlocks).getD (blocksOf tags) := by
  unfold blocksOf
  rw [List.findSome?_cons]
  cases fieldText? .blocks tag <;> rfl

/-- A suite opens with its name and its blocks. -/
theorem Suite.ofTag_suitesOf {tag : Tag} (h : tag.Decodes) (tags : List Tag) :
    Suite.ofTag (suitesOf tags).head? tag
      = .ok ⟨fieldText? .name tag, blocksOf (tag :: tags)⟩ := by
  obtain ⟨fs, hfs, hget⟩ := Fields.exists_ofRun (fun f => f = .name || f = .blocks) h
  have hname : fs.name = fieldText? .name tag := hget .name rfl
  have hblocks : fs.blocks = fieldText? .blocks tag := hget .blocks rfl
  rw [Suite.ofTag, hfs]
  simp only [bind, Except.bind, blocks_head?_suitesOf, hname, hblocks, blocksOf_cons]

/-- A case opens without a mark. -/
theorem Case.ofTag_suitesOf {tag : Tag} (h : tag.Decodes) (tags : List Tag) :
    Case.ofTag (suitesOf tags).head? tag = CaseElement.read ⟨tags, tag, []⟩ := by
  obtain ⟨fs, hfs, hget⟩ := Fields.exists_ofRun (fun _ => true) h
  have hname : fs.name = fieldText? .name tag := hget .name rfl
  have hclass : fs.className = fieldText? .className tag := hget .className rfl
  have htime : fs.time = fieldText? .time tag := hget .time rfl
  have hblocks : fs.blocks = fieldText? .blocks tag := hget .blocks rfl
  rw [Case.ofTag, hfs]
  simp only [bind, Except.bind, blocks_head?_suitesOf, name_head?_suitesOf, hname, hclass, htime,
    hblocks, ← blocksOf_cons, CaseElement.read, CaseElement.result, CaseElement.name?,
    CaseElement.duration?, CaseElement.className]
  cases fieldText? .name tag with
  | none => rfl
  | some name =>
    cases fieldText? .time tag with
    | none => rfl
    | some text =>
      dsimp only
      cases readSeconds text <;> rfl

/-! ## 2. Marks

Marks are put on a case as they come, and only the last one stays.  A case element has all tags
inside at once; the two are compared for a case that was read without any.
-/

/-- A case with the marks of tags, one after the other. -/
def Case.markAll (c : Case) (tags : List Tag) : Case := tags.foldl (fun c t => c.mark t.name) c

theorem Case.markAll_append (c : Case) (tags tags' : List Tag) :
    c.markAll (tags ++ tags') = (c.markAll tags).markAll tags' := List.foldl_append

/-- The last mark counts. -/
theorem Case.markAll_eq (c : Case) (tags : List Tag) : c.markAll tags
    = { c with status :=
          (tags.filterMap fun t => Status.ofMarker? t.name).getLast?.getD c.status } := by
  induction tags using List.reverseRecOn with
  | nil => rfl
  | append_singleton tags t ih =>
    rw [markAll_append, ih, List.filterMap_append]
    simp only [markAll, List.foldl_cons, List.foldl_nil, mark]
    cases hmark : Status.ofMarker? t.name <;> simp [hmark]

/-- Marks inside of a case element set the outcome of its case. -/
theorem CaseElement.read_mark (tags inside : List Tag) (tag : Tag) :
    (CaseElement.read ⟨tags, tag, []⟩).map (·.markAll inside)
      = CaseElement.read ⟨tags, tag, inside⟩ := by
  unfold read
  dsimp only [name?, duration?]
  cases fieldText? .name tag with
  | none => rfl
  | some name =>
    dsimp only
    split
    · rfl
    · exact congrArg Except.ok (Case.markAll_eq _ _)

/-! ## 3. Steps

There is one lemma for each event and each kind of tag: one that opens a case, and any other one.  A
tag of the second kind changes the open suites by `opened`, and its closing tag takes this back.  It
may mark the case that is open.
-/

theorem run_cons (s : ReadState) (ev : Event) (evs : List Event) :
    s.run (ev :: evs) = s.step ev >>= fun s' => s'.run evs := List.foldlM_cons

theorem run_append (s : ReadState) (evs evs' : List Event) :
    s.run (evs ++ evs') = s.run evs >>= fun s' => s'.run evs' := List.foldlM_append

variable {tag : Tag} {tags : List Tag} {pending : Option Case} {done : List Case}

/-- A tag that opens no case opens a suite or marks the open case. -/
theorem step_start (hcase : isCase tag.name = false) (h : isSuite tag.name = true → tag.Decodes) :
    ReadState.step ⟨suitesOf tags, pending, done⟩ (.start tag)
      = pure ⟨suitesOf (opened tag tags), pending.map (·.mark tag.name), done⟩ := by
  dsimp only [ReadState.step, opened]
  cases hsuite : isSuite tag.name with
  | true =>
    have hmark : pending.map (·.mark tag.name) = pending := by
      cases pending with
      | none => rfl
      | some c => rw [Option.map_some, Case.mark, ofMarker?_of_isSuite hsuite]
    rw [if_pos rfl, if_pos rfl, Suite.ofTag_suitesOf (h hsuite), hmark]
    rfl
  | false =>
    rw [hcase]
    rfl

/-- What such a tag opens is closed again. -/
theorem step_stop (hcase : isCase tag.name = false) :
    ReadState.step ⟨suitesOf (opened tag tags), pending, done⟩ (.stop tag.name)
      = pure ⟨suitesOf tags, pending, done⟩ := by
  dsimp only [ReadState.step, opened]
  cases hsuite : isSuite tag.name with
  | true => rfl
  | false =>
    rw [hcase]
    rfl

/-- A tag alone may mark the open case, as one that opens an element does. -/
theorem step_empty (hcase : isCase tag.name = false) :
    ReadState.step ⟨suitesOf tags, pending, done⟩ (.empty tag)
      = pure ⟨suitesOf tags, pending.map (·.mark tag.name), done⟩ := by
  dsimp only [ReadState.step]
  rw [hcase]
  rfl

theorem step_start_case (hcase : isCase tag.name = true) (h : tag.Decodes) :
    ReadState.step ⟨suitesOf tags, none, done⟩ (.start tag)
      = (CaseElement.read ⟨tags, tag, []⟩).map fun c => ⟨suitesOf tags, some c, done⟩ := by
  dsimp only [ReadState.step]
  rw [isSuite_of_isCase hcase, hcase, if_neg Bool.false_ne_true, if_pos rfl,
    Case.ofTag_suitesOf h]
  cases CaseElement.read ⟨tags, tag, []⟩ <;> rfl

theorem step_stop_case (hcase : isCase tag.name = true) (c : Case) :
    ReadState.step ⟨suitesOf tags, some c, done⟩ (.stop tag.name)
      = pure ⟨suitesOf tags, none, c :: done⟩ := by
  dsimp only [ReadState.step]
  rw [isSuite_of_isCase hcase, hcase]
  rfl

theorem step_empty_case (hcase : isCase tag.name = true) (h : tag.Decodes) :
    ReadState.step ⟨suitesOf tags, none, done⟩ (.empty tag)
      = (CaseElement.read ⟨tags, tag, []⟩).map fun c => ⟨suitesOf tags, none, c :: done⟩ := by
  dsimp only [ReadState.step]
  rw [hcase, if_pos rfl, Case.ofTag_suitesOf h]
  cases CaseElement.read ⟨tags, tag, []⟩ <;> rfl

/-! ## 4. Runs

The inductions go through the elements with the suites around them.  Each element has the events of
its tag and, between them, those of its children; so the run through the children starts from what
the tag has opened, and what follows starts from where the element began.
-/

/-- **Inside of a case** a run collects the marks. -/
theorem run_inside {es : List Element} (hcase : ∀ t ∈ tagsOfAll es, isCase t.name = false)
    (h : ∀ t ∈ tagsOfAll es, isSuite t.name = true → t.Decodes) (c : Case) :
    ReadState.run ⟨suitesOf tags, some c, done⟩ (eventsOfAll es)
      = pure ⟨suitesOf tags, some (c.markAll (tagsOfAll es)), done⟩ := by
  induction es using elements_induction generalizing tags c with
  | nil => rfl
  | cons tag children short es ihchildren ih =>
    rw [tagsOfAll_cons] at hcase h ⊢
    obtain ⟨hcasetag, hcaserest⟩ := List.forall_mem_cons.mp hcase
    obtain ⟨hcasechildren, hcasees⟩ := List.forall_mem_append.mp hcaserest
    obtain ⟨htag, hrest⟩ := List.forall_mem_cons.mp h
    obtain ⟨hchildren, hes⟩ := List.forall_mem_append.mp hrest
    rcases eventsOfAll_cons tag children short es with ⟨rfl, hevents⟩ | hevents
    · rw [hevents, run_cons, step_empty hcasetag, pure_bind]
      exact ih hcasees hes (c.mark tag.name)
    · rw [hevents, run_cons, step_start hcasetag htag, pure_bind, run_append, Option.map_some,
        ihchildren hcasechildren hchildren, pure_bind, run_cons, step_stop hcasetag, pure_bind,
        ih hcasees hes, ← Case.markAll_append]
      rfl

/-- A case element and what follows it: its case is added, and the run goes on. -/
theorem run_caseElement {children es : List Element} {short : Bool}
    (hcase : isCase tag.name = true) (hinside : ∀ t ∈ tagsOfAll children, isCase t.name = false)
    (htag : tag.Decodes) (h : ∀ t ∈ tagsOfAll children, isSuite t.name = true → t.Decodes) :
    ReadState.run ⟨suitesOf tags, none, done⟩ (eventsOfAll (.mk tag children short :: es))
      = CaseElement.read ⟨tags, tag, tagsOfAll children⟩ >>= fun c =>
          ReadState.run ⟨suitesOf tags, none, c :: done⟩ (eventsOfAll es) := by
  rcases eventsOfAll_cons tag children short es with ⟨rfl, hevents⟩ | hevents
  · rw [hevents, run_cons, step_empty_case hcase htag, tagsOfAll]
    cases CaseElement.read ⟨tags, tag, []⟩ <;> rfl
  · rw [hevents, run_cons, step_start_case hcase htag,
      ← CaseElement.read_mark tags (tagsOfAll children) tag]
    cases CaseElement.read ⟨tags, tag, []⟩ with
    | error err => rfl
    | ok c =>
      change ReadState.run ⟨suitesOf tags, some c, done⟩ _ = ReadState.run _ _
      rw [run_append, run_inside hinside h, pure_bind, run_cons, step_stop_case hcase, pure_bind]

/-- **Outside of cases** a run adds the cases of the case elements, the last one in front. -/
theorem run_outside {es : List Element}
    (hinside : ∀ e ∈ caseElementsOfAll tags es, ∀ t ∈ e.inside, isCase t.name = false)
    (h : ∀ t ∈ tagsOfAll es, isSuite t.name = true ∨ isCase t.name = true → t.Decodes) :
    ReadState.run ⟨suitesOf tags, none, done⟩ (eventsOfAll es)
      = (caseElementsOfAll tags es).mapM CaseElement.read >>= fun cs =>
          pure ⟨suitesOf tags, none, cs.reverse ++ done⟩ := by
  induction es using elements_induction generalizing tags done with
  | nil => rfl
  | cons tag children short es ihchildren ih =>
    rw [caseElementsOfAll_cons] at hinside ⊢
    obtain ⟨hinside', hinsidees⟩ := List.forall_mem_append.mp hinside
    obtain ⟨hinsidetag, hinsidechildren⟩ := List.forall_mem_append.mp hinside'
    rw [tagsOfAll_cons] at h
    obtain ⟨htag, hrest⟩ := List.forall_mem_cons.mp h
    obtain ⟨hchildren, hes⟩ := List.forall_mem_append.mp hrest
    cases hcase : isCase tag.name with
    | true =>
      -- the element is a case, and no other case is in it
      have hnone : ∀ t ∈ tagsOfAll children, isCase t.name = false := by
        rw [if_pos hcase] at hinsidetag
        exact hinsidetag _ List.mem_cons_self
      rw [run_caseElement hcase hnone (htag (.inr hcase)) fun t ht hsuite =>
          hchildren t ht (.inl hsuite),
        caseElementsOfAll_eq_nil hnone, if_pos rfl, List.append_nil, List.singleton_append,
        List.mapM_cons]
      simp only [ih hinsidees hes, bind_assoc, pure_bind, List.reverse_cons, List.append_assoc,
        List.singleton_append]
    | false =>
      -- what the element opens is closed again, so its children and what follows add their cases
      rw [if_neg Bool.false_ne_true, List.nil_append, List.mapM_append]
      rcases eventsOfAll_cons tag children short es with ⟨rfl, hevents⟩ | hevents
      · rw [hevents, run_cons, step_empty hcase, pure_bind, Option.map_none, ih hinsidees hes,
          caseElementsOfAll, List.mapM_nil]
        simp only [pure_bind, List.nil_append, bind_pure]
      · rw [hevents, run_cons, step_start hcase fun hsuite => htag (.inl hsuite), pure_bind,
          run_append, Option.map_none, ihchildren hinsidechildren hchildren]
        simp only [bind_assoc, pure_bind, run_cons, step_stop hcase, ih hinsidees hes,
          List.reverse_append, List.append_assoc]

/-! ## 5. Reports

That no case stands in a case is needed for the run, which has room for one.  The conditions of
`Plain` are about tags and case elements only, so they pass on to documents with the same ones:
those with other forms of empty elements, and those with other elements that do not matter.
-/

/-- Elements whose suites and cases have a text for each attribute, and no case inside of a case. -/
structure Plain (es : List Element) : Prop where
  decodes : ∀ t ∈ tagsOfAll es, isSuite t.name = true ∨ isCase t.name = true → t.Decodes
  flat : ∀ e ∈ caseElementsOfAll [] es, ∀ t ∈ e.inside, isCase t.name = false

/-- **The cases of a report** are those of its case elements. -/
theorem readEvents_eventsOfAll {es : List Element} (h : Plain es) :
    readEvents (eventsOfAll es) = (caseElementsOfAll [] es).mapM CaseElement.read := by
  have hrun : ReadState.run {} (eventsOfAll es) = _ := run_outside h.flat h.decodes
  change (ReadState.run {} (eventsOfAll es) >>= fun s => pure s.cases.reverse) = _
  rw [hrun]
  simp only [bind_assoc, pure_bind, List.append_nil, List.reverse_reverse, bind_pure]

/-- How elements without children are written does not count. -/
theorem Plain.of_longAll {es es' : List Element} (hlong : longAll es' = longAll es)
    (h : Plain es) : Plain es' where
  decodes := by
    rw [← tagsOfAll_longAll, hlong, tagsOfAll_longAll]
    exact h.decodes
  flat := by
    rw [← caseElementsOfAll_longAll, hlong, caseElementsOfAll_longAll]
    exact h.flat

theorem Plain.of_pruneAll {es es' : List Element} (hprune : pruneAll false es' = pruneAll false es)
    (h : Plain es) : Plain es' where
  decodes t ht hname := by
    have hmem : t ∈ tagsOfAll (pruneAll false es') := mem_tagsOfAll_pruneAll hname ht
    rw [hprune] at hmem
    exact h.decodes t (mem_tagsOfAll_of_pruneAll hmem) hname
  flat e he t ht := by
    have htrim := caseElementsOfAll_pruneAll false [] es'
    rw [hprune, caseElementsOfAll_pruneAll] at htrim
    have hmem := List.mem_map_of_mem (f := CaseElement.trim (matters true)) he
    rw [← htrim] at hmem
    obtain ⟨e', he', heq⟩ := List.mem_map.mp hmem
    by_contra hcase
    -- a case inside of `e` would matter, so it would be inside of `e'` too
    have hmatters : matters true t = true := matters_of_name (.inr (Bool.not_eq_false _ ▸ hcase))
    have ht' : t ∈ (e.trim (matters true)).inside := List.mem_filter.mpr ⟨ht, hmatters⟩
    rw [← heq] at ht'
    exact hcase (h.flat e' he' t (List.mem_of_mem_filter ht'))

/-- What does not matter is not read. -/
theorem mapM_read_trim (es : List CaseElement) :
    (es.map (CaseElement.trim (matters true))).mapM CaseElement.read
      = es.mapM CaseElement.read := by
  have hmatters : ∀ t : Tag, (Status.ofMarker? t.name).isSome = true → matters true t = true :=
    fun t ht => by rw [matters, ht, Bool.true_and, Bool.or_true]
  rw [List.mapM_map]
  exact congrArg (es.mapM ·) (funext fun e => CaseElement.read_trim hmatters e)

/-- **A report is read** if each of its cases has a name and, if one is given, a time.  Its cases
are then those of its case elements, in their order; there is one case element for each case tag, in
the order of the tags, and what marks an outcome is a tag with one of three names.  It makes no
difference whether an element is written as one tag or as two, nor which other elements there are,
nor which marks outside of cases. -/
theorem readEvents_elements {es : List Element} (h : Plain es) :
    (caseElementsOfAll [] es).map CaseElement.tag
        = (tagsOfAll es).filter (fun t => isCase t.name) ∧
      (∀ (name : Bytes) (status : Status), Status.ofMarker? name = some status ↔
        localName name = Bytes.ofString "failure" ∧ status = .failed ∨
          localName name = Bytes.ofString "error" ∧ status = .errored ∨
            localName name = Bytes.ofString "skipped" ∧ status = .skipped) ∧
      (∀ cs, readEvents (eventsOfAll es) = .ok cs ↔
        (∀ e ∈ caseElementsOfAll [] es, e.Readable) ∧
          cs = (caseElementsOfAll [] es).map CaseElement.result) ∧
      (∀ es', longAll es' = longAll es →
        readEvents (eventsOfAll es') = readEvents (eventsOfAll es)) ∧
      (∀ es', pruneAll false es' = pruneAll false es →
        readEvents (eventsOfAll es') = readEvents (eventsOfAll es)) := by
  refine ⟨map_tag_caseElementsOfAll [] es, fun name status => Status.ofMarker?_eq_some_iff,
    fun cs => ?_, fun es' hlong => ?_, fun es' hprune => ?_⟩
  · rw [readEvents_eventsOfAll h]
    exact CaseElement.mapM_read_eq_ok_iff
  · rw [readEvents_eventsOfAll h, readEvents_eventsOfAll (h.of_longAll hlong),
      ← caseElementsOfAll_longAll, hlong, caseElementsOfAll_longAll]
  · rw [readEvents_eventsOfAll h, readEvents_eventsOfAll (h.of_pruneAll hprune),
      ← mapM_read_trim, ← caseElementsOfAll_pruneAll false, hprune, caseElementsOfAll_pruneAll,
      mapM_read_trim]

/-- A suite in a suite, with a case of each form, and marks inside and outside of cases. -/
def nestedSuites : List Element :=
  let tag (inside : String) : Tag := .ofInside (.ofString inside)
  [.mk (tag "testsuite name='outer' enclosing-blocks='5, 3'") [
    .mk (tag "testsuite name='inner'") [
      .mk (tag "testcase name='one' classname='a.B' time='1.5'") [] true,
      .mk (tag "testcase name='two'") [
        .mk (tag "system-out") [.mk (tag "failure") [] true] false] false] false,
    .mk (tag "skipped") [] true] false]

theorem readEvents_elements_nestedSuites :
    Plain nestedSuites ∧ readEvents (eventsOfAll nestedSuites) = .ok [
      { className := "a.B", name := "one", duration := Millis.ofNat 1500, blocks := ["5", "3"] },
      { className := "inner", name := "two", status := .failed, blocks := ["5", "3"] }] := by
  have hplain : Plain nestedSuites := ⟨by decide +kernel, by decide +kernel⟩
  exact ⟨hplain, ((readEvents_elements hplain).2.2.1 _).mpr ⟨by decide +kernel, by decide +kernel⟩⟩

end TestLanes.Report
