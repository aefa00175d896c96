import TestLanes.Proofs.Markup.Front
import TestLanes.Proofs.Report.Reading

/-!
# Truncated reports

Whether an event is taken in does not depend on what was read before it (`step_eq_error_iff`), and
cases that have been read stay (`cases_suffix_of_run`).

The end of a report is no event, so nothing tells a report that stops too early from one that is
complete: of a report that can be read every front that splits no tag can be read too, and has the
first of its cases (`readReport_front`).  `readReport_open_suite` has such a front, in which a suite
stays open.
-/

namespace TestLanes.Report

open Markup (Bytes Event Tag scan)

/-! ## 1. Faults

What an event makes wrong is found by the attributes of its tag.  The suites that are open add a
name and blocks to what is read, and neither of these can be wrong.  So the fault of an event is
defined from the empty state, and of a run the first such fault is its error.
-/

/-- What is wrong with an event by itself. -/
def fault? (ev : Event) : Option ReadError :=
  match ReadState.step {} ev with
  | .error err => some err
  | .ok _ => none

theorem Suite.ofTag_eq_error_iff {parent : Option Suite} {tag : Tag} {err : ReadError} :
    Suite.ofTag parent tag = .error err
      ↔ Fields.ofRun (fun f => f = .name || f = .blocks) tag.run = .error err := by
  unfold ofTag
  cases Fields.ofRun (fun f => f = .name || f = .blocks) tag.run <;> simp [bind, Except.bind]

/-- The suite around a case does not count for what is wrong with it. -/
theorem Case.ofTag_eq_error_iff {suite : Option Suite} {tag : Tag} {err : ReadError} :
    Case.ofTag suite tag = .error err ↔ Case.ofTag none tag = .error err := by
  unfold ofTag
  cases Fields.ofRun (fun _ => true) tag.run with
  | error err' => rfl
  | ok fs =>
    dsimp only [bind, Except.bind]
    cases fs.name with
    | none => rfl
    | some name =>
      dsimp only
      cases fs.time with
      | none => simp
      | some text =>
        dsimp only
        cases readSeconds text <;> simp

/-- What is done with a value adds no fault. -/
theorem bind_ok_eq_error_iff {x : Except ReadError α} {f : α → β} {err : ReadError} :
    (x >>= fun a => .ok (f a)) = .error err ↔ x = .error err := by
  cases x <;> simp [bind, Except.bind]

/-- **What is open** does not count for what is wrong with an event. -/
theorem step_eq_error_iff {s : ReadState} {ev : Event} {err : ReadError} :
    s.step ev = .error err ↔ fault? ev = some err := by
  have hself : ReadState.step {} ev = .error err ↔ fault? ev = some err := by
    unfold fault?
    cases ReadState.step {} ev <;> simp
  refine Iff.trans ?_ hself
  cases ev with
  | start tag =>
    dsimp only [ReadState.step]
    cases isSuite tag.name with
    | true =>
      rw [if_pos rfl, if_pos rfl, bind_ok_eq_error_iff, bind_ok_eq_error_iff,
        Suite.ofTag_eq_error_iff, Suite.ofTag_eq_error_iff]
    | false =>
      cases isCase tag.name with
      | true =>
        exact bind_ok_eq_error_iff.trans (Case.ofTag_eq_error_iff.trans bind_ok_eq_error_iff.symm)
      | false => exact iff_of_false (fun h => nomatch h) (fun h => nomatch h)
  | empty tag =>
    dsimp only [ReadState.step]
    cases isCase tag.name with
    | true =>
      exact bind_ok_eq_error_iff.trans (Case.ofTag_eq_error_iff.trans bind_ok_eq_error_iff.symm)
    | false => exact iff_of_false (fun h => nomatch h) (fun h => nomatch h)
  | stop name =>
    -- a closing tag is taken in whatever it closes
    dsimp only [ReadState.step]
    cases isSuite name <;> cases isCase name <;>
      exact iff_of_false (fun h => nomatch h) (fun h => nomatch h)

/-- **A run fails** at the first event with which something is wrong. -/
theorem run_eq_error_iff {s : ReadState} {evs : List Event} {err : ReadError} :
    s.run evs = .error err ↔ evs.findSome? fault? = some err := by
  induction evs generalizing s with
  | nil => exact iff_of_false (fun h => nomatch h) (fun h => nomatch h)
  | cons ev evs ih =>
    rw [run_cons, List.findSome?_cons]
    cases hstep : s.step ev with
    | error err' =>
      rw [step_eq_error_iff.mp hstep]
      simp [bind, Except.bind]
    | ok s' =>
      have hnone : fault? ev = none := by
        cases hfault : fault? ev with
        | none => rfl
        | some err' =>
          rw [step_eq_error_iff.mpr hfault] at hstep
          exact nomatch hstep
      rw [hnone]
      exact ih

/-! ## 2. Cases that have been read

Cases are kept with the last one first, so that the cases of a front are the end of the list.
-/

theorem cases_suffix_of_step {s s' : ReadState} {ev : Event} (h : s.step ev = .ok s') :
    s.cases <:+ s'.cases := by
  cases ev with
  | start tag =>
    dsimp only [ReadState.step] at h
    split at h
    · obtain ⟨suite, -, h⟩ := bind_eq_ok_iff.mp h
      cases h
      exact List.suffix_rfl
    · split at h
      · obtain ⟨c, -, h⟩ := bind_eq_ok_iff.mp h
        cases h
        exact List.suffix_rfl
      · cases h
        exact List.suffix_rfl
  | empty tag =>
    dsimp only [ReadState.step] at h
    split at h
    · obtain ⟨c, -, h⟩ := bind_eq_ok_iff.mp h
      cases h
      exact List.suffix_cons c s.cases
    · cases h
      exact List.suffix_rfl
  | stop name =>
    dsimp only [ReadState.step] at h
    split at h
    · cases h
      exact List.suffix_rfl
    · split at h
      · cases h
        exact List.suffix_append _ _
      · cases h
        exact List.suffix_rfl

/-- So does a run. -/
theorem cases_suffix_of_run {s s' : ReadState} {evs : List Event} (h : s.run evs = .ok s') :
    s.cases <:+ s'.cases := by
  induction evs generalizing s with
  | nil =>
    cases h
    exact List.suffix_rfl
  | cons ev evs ih =>
    rw [run_cons] at h
    obtain ⟨s'', hstep, hrest⟩ := bind_eq_ok_iff.mp h
    exact (cases_suffix_of_step hstep).trans (ih hrest)

theorem readEvents_prefix {evs evs' : List Event} (hbegin : evs <+: evs') {cs : List Case}
    (h : readEvents evs' = .ok cs) : ∃ cs', readEvents evs = .ok cs' ∧ cs' <+: cs := by
  obtain ⟨more, rfl⟩ := hbegin
  obtain ⟨s', hrun, h⟩ := bind_eq_ok_iff.mp h
  rw [run_append] at hrun
  obtain ⟨s, hfront, hmore⟩ := bind_eq_ok_iff.mp hrun
  cases h
  refine ⟨s.cases.reverse, ?_, List.reverse_prefix.mpr (cases_suffix_of_run hmore)⟩
  rw [readEvents, hfront]
  rfl

/-! ## 3. Fronts of reports

A document is taken apart into events first, and the events of a front that splits no tag are the
first events of the whole.
-/

theorem readEvents_eq_error_iff {evs : List Event} {err : ReadError} :
    readEvents evs = .error err ↔ evs.findSome? fault? = some err :=
  bind_ok_eq_error_iff.trans run_eq_error_iff

/-- A report without a fault in the document is read by its events. -/
theorem readReport_of_fault_eq_none {document : Bytes} (h : (scan document).fault = none) :
    readReport document = readEvents (scan document).events := by
  dsimp only [readReport]
  cases readEvents (scan document).events with
  | error err => rfl
  | ok cs => rw [h]; rfl

theorem readEvents_of_readReport {document : Bytes} {cs : List Case}
    (h : readReport document = .ok cs) : readEvents (scan document).events = .ok cs := by
  obtain ⟨cs', hread, h⟩ := bind_eq_ok_iff.mp h
  split at h
  · cases h
    exact hread
  · exact nomatch h

/-- **The front of a report** that splits no tag is rejected only if something is wrong with one of
its own tags, whatever is still open where it ends.  If the whole report can be read, the front can
be read as well, and has a part of the cases. -/
theorem readReport_front {front : Bytes} (h : (scan front).fault = none) :
    (∀ err, readReport front = .error err ↔ (scan front).events.findSome? fault? = some err) ∧
      ∀ more cs, readReport (front ++ more) = .ok cs →
        ∃ cs', readReport front = .ok cs' ∧ cs' <+: cs := by
  rw [readReport_of_fault_eq_none h]
  exact ⟨fun err => readEvents_eq_error_iff, fun more cs hread =>
    readEvents_prefix (Markup.events_scan_append more h) (readEvents_of_readReport hread)⟩

/-- A suite that is cut behind the first of two cases: its front, and what is missing. -/
def cutSuite : Bytes × Bytes :=
  (.ofString "<testsuite name='s'><testcase name='t'/>", .ofString "<testcase name='u'/></testsuite>")

theorem readReport_front_cutSuite : (scan cutSuite.1).fault = none ∧
    ∃ cs', readReport cutSuite.1 = .ok cs' ∧
      cs' <+: [{ className := "s", name := "t" }, { className := "s", name := "u" }] := by
  have hfront : (scan cutSuite.1).fault = none := by decide +kernel
  exact ⟨hfront, (readReport_front hfront).2 cutSuite.2 _ (by decide +kernel)⟩

/-- The suite stays open, and the one case that is left is all there is. -/
theorem readReport_open_suite :
    readReport cutSuite.1 = .ok [{ className := "s", name := "t" }] ∧
      readReport (cutSuite.1 ++ cutSuite.2)
        = .ok [{ className := "s", name := "t" }, { className := "s", name := "u" }] := by
  constructor <;> decide +kernel

end TestLanes.Report
