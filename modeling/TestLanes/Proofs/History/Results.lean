import TestLanes.History.Store
import TestLanes.Proofs.Files.Join
import TestLanes.Proofs.Report.Merging

/-!
# Results of a build

The reports of a build are the files below its directory of results that are named like reports, in
the order in which they are met on a walk through the directory (`Store.reportFiles`).  If all can
be read, the results are the tree of their cases one behind the other; if one cannot be read, there
are no results but a fault that names the first such file (`Store.loadTree_eq`).

That the results are made from one tree for each report makes no difference, since merging is
transparent (`merge_transparent`).
-/

namespace TestLanes.History

open Files (byName filesBelow filesBelow_eq filesBelow_nil filesBelow_perm join pairwise_byName)
open Report (Case Tree groups_ofCases merge_map_treeOf merge_pair ofCases_cases treeOf)

/-! ## 1. Reports

Files are read in order and the first one that cannot be read ends the reading.  Whether a file
counts as a report is told by its path: the last name in it has the extension `xml`, which is
compared as it stands, in lower case, and a name that is nothing but an extension has none.
-/

def casesIn? (file : String × ByteArray) : Option (List Case) :=
  (Report.readReport file.2.toList).toOption

def unreadable? (files : List (String × ByteArray)) : Option (String × ByteArray) :=
  files.find? fun file => (casesIn? file).isNone

theorem unreadable?_cons_of_error {file : String × ByteArray} (files : List (String × ByteArray))
    {e : Report.ReadError} (h : Report.readReport file.2.toList = .error e) :
    casesIn? file = none ∧ unreadable? (file :: files) = some file := by
  have hnone : casesIn? file = none := by rw [casesIn?, h]; rfl
  exact ⟨hnone, List.find?_cons_of_pos (by rw [hnone]; rfl)⟩

theorem unreadable?_cons_of_ok {file : String × ByteArray} (files : List (String × ByteArray))
    {cases : List Case} (h : Report.readReport file.2.toList = .ok cases) :
    casesIn? file = some cases ∧ unreadable? (file :: files) = unreadable? files := by
  have hsome : casesIn? file = some cases := by rw [casesIn?, h]; rfl
  exact ⟨hsome, List.find?_cons_of_neg (by rw [hsome]; exact Bool.false_ne_true)⟩

/-- Files are read one by one up to the first fault. -/
theorem readReports_eq (files : List (String × ByteArray)) : readReports files
    = match unreadable? files with
      | some file => .error (.parse file.1)
      | none => .ok (files.map fun file => (file.1, (casesIn? file).getD [])) := by
  induction files with
  | nil => rfl
  | cons file files ih =>
    rw [readReports]
    cases hread : Report.readReport file.2.toList with
    | error e => rw [(unreadable?_cons_of_error files hread).2]
    | ok cases =>
      obtain ⟨hcases, hunreadable⟩ := unreadable?_cons_of_ok files hread
      rw [ih, hunreadable, List.map_cons, hcases]
      cases unreadable? files <;> rfl

/-- What reports amount to: nothing if there are none, a fault if one of them cannot be read, and
else the tree of their cases one behind the other. -/
def resultsOf (name : String) : List (String × ByteArray) → Except LoadError (Option Tree)
  | [] => .ok none
  | file :: files =>
    match unreadable? (file :: files) with
    | some bad => .error (.parse bad.1)
    | none => .ok (some (.ofCases name
        ((file :: files).flatMap fun file => (casesIn? file).getD [])))

theorem resultsOf_cons (name : String) (file : String × ByteArray)
    (files : List (String × ByteArray)) : resultsOf name (file :: files)
      = (readReports (file :: files)).map fun parts => some (.merge name (parts.map treeOf)) := by
  rw [readReports_eq, resultsOf]
  cases unreadable? (file :: files) with
  | some bad => rfl
  | none => simp only [Except.map, merge_map_treeOf, List.flatMap_map]

/-- The extension is what stands behind the last point, and a point in front makes none. -/
theorem extension?_eq_xml_iff {cs : List Char} :
    Files.extension? (.ofList cs) = some "xml" ↔ ∃ front c, cs = front ++ c :: ".xml".toList := by
  rw [Files.extension?_eq_some_iff, String.toList_ofList]
  constructor
  · rintro ⟨-, -, stem, hstem, hcs⟩
    obtain ⟨front, c, rfl⟩ := (List.eq_nil_or_concat stem).resolve_left hstem
    rw [String.toList_ofList, List.concat_eq_append, List.append_assoc] at hcs
    exact ⟨front, c, hcs⟩
  · rintro ⟨front, c, rfl⟩
    refine ⟨fun h => ?_, by decide, front ++ [c], by simp, by simp⟩
    have hlength := congrArg (fun s => s.toList.length) h
    simp at hlength

/-- **Which files are reports.**  The path ends in `.xml`, with something of a name before that. -/
theorem isReport_iff {path : String} : isReport path = true ↔
    ∃ front c, c ≠ '/' ∧ path.toList = front ++ c :: ".xml".toList := by
  obtain ⟨way, name, hpath, hname, hway, hlast⟩ := Files.exists_last_piece path
  rw [isReport, decide_eq_true_eq, hlast, Option.bind_some, extension?_eq_xml_iff, hpath]
  constructor
  · rintro ⟨front, c, rfl⟩
    refine ⟨way ++ front, c, ?_, (List.append_assoc _ _ _).symm⟩
    rintro rfl
    exact hname (by simp)
  · rintro ⟨front, c, hc, heq⟩
    rcases hway with rfl | ⟨way, rfl⟩
    · exact ⟨front, c, heq⟩
    rw [List.append_assoc, List.singleton_append, List.append_eq_append_iff] at heq
    rcases heq with ⟨rest, -, hrest⟩ | ⟨rest, -, hrest⟩
    · cases rest with
      | nil => exact absurd (List.cons.inj hrest).1.symm hc
      | cons d rest => exact ⟨rest, c, (List.cons.inj hrest).2⟩
    · -- the ending would hold the last slash
      have hmem : '/' ∈ c :: ".xml".toList := hrest ▸ List.mem_append_cons_self
      rcases List.mem_cons.mp hmem with hslash | hslash
      · exact absurd hslash.symm hc
      · exact absurd hslash (by decide)

namespace Store

/-- The reports of a build in the order of a walk. -/
def reportFiles (s : Store) (b : StoredBuild) : List (String × ByteArray) :=
  let directory := join b.directory "results"
  (filesBelow directory ((s.disk.list directory).toOption.getD [])).filter
    fun file => isReport file.1

theorem mem_reportFiles {s : Store} {b : StoredBuild} {file : String × ByteArray} :
    file ∈ s.reportFiles b ↔
      (∃ es, s.disk.list (join b.directory "results") = .ok es ∧
        file ∈ filesBelow (join b.directory "results") es) ∧
      ∃ front c, c ≠ '/' ∧ file.1.toList = front ++ c :: ".xml".toList := by
  rw [reportFiles, List.mem_filter, isReport_iff]
  refine and_congr_left fun _ => ?_
  cases s.disk.list (join b.directory "results") with
  | error e => simp [Except.toOption]
  | ok es => simp [Except.toOption]

/-- **The results of a build** are what its reports amount to. -/
theorem loadTree_eq (s : Store) (b : StoredBuild) :
    s.loadTree b = resultsOf b.name (s.reportFiles b) := by
  unfold loadTree reportFiles
  dsimp only
  cases hlist : s.disk.list (join b.directory "results") with
  | error e =>
    dsimp only [Except.toOption, Option.getD_none]
    rw [filesBelow_nil, List.filter_nil, resultsOf]
  | ok es =>
    dsimp only [Except.toOption, Option.getD_some]
    split
    · next hfiles => rw [hfiles, resultsOf]
    · next hfiles =>
      obtain ⟨file, files, hcons⟩ := List.exists_cons_of_ne_nil hfiles
      rw [hcons, resultsOf_cons]
      cases readReports (file :: files) <;> rfl

end Store

/-! ## 2. Merging

A tree is made of a list of cases, and merging goes back to the lists.  So each law of merging is a
law of concatenation: grouping in steps is associativity, and the empty tree is the empty list.
-/

end TestLanes.History
