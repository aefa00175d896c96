import TestLanes.Proofs.Files.Join
import TestLanes.Proofs.History.Chain
import TestLanes.Proofs.History.Results

/-!
# The directory that a build is read from

A build is read from the directory whose name is its number as it is written (`metadata_load`,
`value_graph`, `loadTree_eq_kept`), and from nowhere else (`kept_congr`).  It is recorded by any
directory whose name spells its number, with a sign or with zeros in front as well.  So a directory
that records a build is the one that it is read from only if its name has neither
(`join_eq_buildDirectory_iff`), and nothing is read of a build that is recorded under other
spellings alone (`buildDirectory_of_recorded`).
-/

namespace TestLanes.History

open Files (Disk IsName join)

/-! ## 1. Spellings as names -/

theorem isName_numeral (signed : Bool) (zeros n : Nat) : IsName (Text.numeral signed zeros n) := by
  have hpoint : '.' ∉ (Text.numeral signed zeros n).toList :=
    Text.notMem_numeral (by decide) (by decide) signed zeros n
  refine ⟨Text.notMem_numeral (by decide) (by decide) signed zeros n, ?_, fun h => ?_⟩
  · rw [Files.isFiller, Bool.or_eq_false_iff, decide_eq_false_iff_not, decide_eq_false_iff_not]
    refine ⟨Text.numeral_ne_empty signed zeros n, fun h => ?_⟩
    rw [h] at hpoint
    exact hpoint (by decide)
  · rw [h] at hpoint
    exact hpoint (by decide)

theorem isName_toString (n : Nat) : IsName (toString n) := by
  have hname := isName_numeral false 0 n
  rwa [Text.numeral_eq_toString_iff.mpr ⟨rfl, rfl⟩] at hname

namespace Store

/-! ## 2. What is kept of a build

Metadata, steps and results are all read from paths that are joined to the directory of the build.
What is kept in a directory is collected in one structure, so that being read from a directory, and
from nowhere else, is one equation for each of the three.  Below a directory that is not there every
path leads nowhere, and what is missing counts as the least that can be said.
-/

/-- What a document says, if it is there and can be read. -/
def document? {α : Type} (s : Store) (path : String)
    (decode : List (String × Toml.Value) → Option α) : Option α :=
  (readDocument s.disk path decode).toOption.join

/-- What is kept of a build. -/
structure Kept where
  metadata : Metadata := {}
  graph : Option Pipeline.Graph := none
  reports : List (String × ByteArray) := []

def kept (s : Store) (directory : String) : Kept where
  metadata := (s.document? (join directory "build.toml") Metadata.ofToml?).getD {}
  graph := s.document? (join directory "flow.toml") Pipeline.Graph.ofToml?
  reports := (Files.filesBelow (join directory "results")
    ((s.disk.list (join directory "results")).toOption.getD [])).filter fun file => isReport file.1

variable {s s' : Store} {b : StoredBuild} {directory : String}

theorem metadata_load :
    (s.load b.branch b.number).value.metadata = (s.kept b.directory).metadata := by
  unfold load kept document?
  dsimp only
  rw [← StoredBuild.directory]
  cases readDocument s.disk (join b.directory "build.toml") Metadata.ofToml? with
  | error e => rfl
  | ok metadata => cases metadata <;> rfl

theorem value_graph : (s.graph b).value = (s.kept b.directory).graph := by
  unfold graph kept document?
  dsimp only
  cases readDocument s.disk (join b.directory "flow.toml") Pipeline.Graph.ofToml? with
  | error e => rfl
  | ok graph => cases graph <;> rfl

theorem loadTree_eq_kept : s.loadTree b = resultsOf b.name (s.kept b.directory).reports := by
  rw [loadTree_eq, reportFiles, kept]

/-- Below a directory there is the same on the disks of both stores. -/
def AgreeBelow (s s' : Store) (directory : String) : Prop :=
  ∀ file, IsName file → s'.disk.entry (join directory file) = s.disk.entry (join directory file)

theorem document?_congr {path : String} (h : s'.disk.entry path = s.disk.entry path) {α : Type}
    (decode : List (String × Toml.Value) → Option α) :
    s'.document? path decode = s.document? path decode := by
  unfold document? readDocument Disk.readText Disk.readBytes
  rw [h]

theorem kept_congr (h : s.AgreeBelow s' directory) : s'.kept directory = s.kept directory := by
  have hlist : s'.disk.list (join directory "results") = s.disk.list (join directory "results") := by
    rw [Disk.list, h "results" (by decide), Disk.list]
  rw [kept, document?_congr (h "build.toml" (by decide)), document?_congr (h "flow.toml" (by decide)),
    hlist, kept]

/-- Below a directory that is not there, there is nothing. -/
theorem exists_entry_eq_error (hempty : directory.isEmpty = false)
    (hmissing : s.disk.isDirectory directory = false) {file : String} (hfile : IsName file) :
    ∃ e, s.disk.entry (join directory file) = .error e := by
  cases hentry : s.disk.entry (join directory file) with
  | error e => exact ⟨e, rfl⟩
  | ok x =>
    obtain ⟨es, hes, -⟩ := Disk.exists_list_of_entry_join hempty hfile hentry
    rw [Disk.isDirectory_iff.mpr ⟨es, hes⟩] at hmissing
    cases hmissing

theorem document?_eq_none {path : String} {e : Files.FileError} (h : s.disk.entry path = .error e)
    {α : Type} (decode : List (String × Toml.Value) → Option α) : s.document? path decode = none := by
  unfold document? readDocument Disk.readText Disk.readBytes
  rw [h]
  cases e <;> rfl

/-- **In a directory that is not there nothing is kept.** -/
theorem kept_of_missing (hempty : directory.isEmpty = false)
    (hmissing : s.disk.isDirectory directory = false) : s.kept directory = {} := by
  obtain ⟨e₁, hbuild⟩ := exists_entry_eq_error hempty hmissing (by decide : IsName "build.toml")
  obtain ⟨e₂, hflow⟩ := exists_entry_eq_error hempty hmissing (by decide : IsName "flow.toml")
  obtain ⟨e₃, hresults⟩ := exists_entry_eq_error hempty hmissing (by decide : IsName "results")
  have hlist : s.disk.list (join directory "results") = .error e₃ := by
    rw [Disk.list, hresults]
    rfl
  rw [kept, document?_eq_none hbuild, document?_eq_none hflow, hlist]
  rfl

/-! ## 3. The directories of a branch

A number is recorded by a name that spells it, and read from the name it is written with.  These are
two names unless the spelling has neither a sign nor zeros in front, by the lemma on numerals
(`Text.numeral_eq_toString_iff`).
-/

section Recorded

variable {s : Store} {name : String} {br : Branch} (h : (s.branch name).value = .ok br)
include h

theorem buildDirectory_eq (n : Nat) : br.buildDirectory n = join (s.buildsOf name) (toString n) := by
  rw [Branch.buildDirectory, (branch_eq_ok h).2.1]
  rfl

/-- **Of the directories that may record a build one is the directory that it is read from.** -/
theorem join_eq_buildDirectory_iff {signed : Bool} {zeros n : Nat} :
    join (s.buildsOf name) (Text.numeral signed zeros n) = br.buildDirectory n
      ↔ signed = false ∧ zeros = 0 := by
  rw [buildDirectory_eq h, ← Text.numeral_eq_toString_iff]
  exact ⟨Files.join_injective (isName_numeral signed zeros n).isAbsolute
    (isName_toString n).isAbsolute, congrArg _⟩

/-- **The directory of a build records it**, if it is there. -/
theorem isDirectory_buildDirectory_iff {n : Nat} (hn : n < Text.wordBound) :
    s.disk.isDirectory (br.buildDirectory n) = true
      ↔ ∃ e, s.IsBuild name e n ∧ join (s.buildsOf name) e.1 = br.buildDirectory n := by
  rw [buildDirectory_eq h]
  constructor
  · intro hdirectory
    have hempty : (s.buildsOf name).isEmpty = false :=
      Files.isEmpty_join _ (by decide)
    obtain ⟨sub, hsub⟩ := Disk.isDirectory_iff.mp hdirectory
    obtain ⟨es, hes, hfound⟩ := Disk.exists_list_of_entry_join hempty (isName_toString n)
      (Disk.list_eq_ok_iff_entry.mp hsub)
    have hentries : s.buildEntries name = es := by
      rw [buildEntries, hes]
      rfl
    have hspelled : Text.readNumeral? (toString n) = some n :=
      Text.readNumeral?_eq_some_iff.mpr
        ⟨hn, false, 0, (Text.numeral_eq_toString_iff.mpr ⟨rfl, rfl⟩).symm⟩
    refine ⟨(toString n, .directory sub), ⟨?_, hdirectory, hspelled⟩, rfl⟩
    rw [hentries]
    exact Files.mem_of_find?_eq_some hfound
  · rintro ⟨e, ⟨-, hdirectory, -⟩, hpath⟩
    rwa [hpath] at hdirectory

end Recorded

/-- **Where recorded builds are read from.**  The recorded numbers are those that names of
directories spell.  Such a directory is that of the build of its number exactly if its name has no
sign and no zeros in front of the number.  The directory of a recorded build is there exactly if it
is one of those that record it.  The metadata, the steps and the results of the build are what is
kept in this directory, whatever is elsewhere, and if it is not there nothing is kept of the
build. -/
theorem buildDirectory_of_recorded (s : Store) {name : String} {br : Branch}
    (h : (s.branch name).value = .ok br) :
    (∀ n, n ∈ br.builds ↔ ∃ e, s.IsBuild name e n) ∧
      (∀ e n, s.IsBuild name e n → ∃ signed zeros, e.1 = Text.numeral signed zeros n ∧
        (join (s.buildsOf name) e.1 = br.buildDirectory n ↔ signed = false ∧ zeros = 0)) ∧
      ∀ n ∈ br.builds,
        (s.disk.isDirectory (br.buildDirectory n) = true ↔
          ∃ e, s.IsBuild name e n ∧ join (s.buildsOf name) e.1 = br.buildDirectory n) ∧
        (∀ b : StoredBuild, b.branch = br → b.number = n →
          (s.load br n).value.metadata = (s.kept (br.buildDirectory n)).metadata ∧
            (s.graph b).value = (s.kept (br.buildDirectory n)).graph ∧
            s.loadTree b = resultsOf b.name (s.kept (br.buildDirectory n)).reports) ∧
        (∀ s' : Store, s.AgreeBelow s' (br.buildDirectory n) →
          s'.kept (br.buildDirectory n) = s.kept (br.buildDirectory n)) ∧
        (s.disk.isDirectory (br.buildDirectory n) = false → s.kept (br.buildDirectory n) = {}) := by
  refine ⟨fun n => mem_builds h, fun e n hbuild => ?_, fun n hn => ⟨?_, ?_, ?_, ?_⟩⟩
  · obtain ⟨-, signed, zeros, hspelled⟩ := Text.readNumeral?_eq_some_iff.mp hbuild.2.2
    refine ⟨signed, zeros, hspelled, ?_⟩
    rw [hspelled]
    exact join_eq_buildDirectory_iff h
  · exact isDirectory_buildDirectory_iff h (lt_of_records ((mem_builds h).mp hn))
  · rintro b rfl rfl
    exact ⟨metadata_load, value_graph, loadTree_eq_kept⟩
  · exact fun s' hagree => kept_congr hagree
  · exact kept_of_missing (Files.isEmpty_join _ (isName_toString n))

/-- Build 12 is read from its directory; nothing is kept of build 3, which two others record. -/
theorem buildDirectory_of_recorded_featureStore :
    (featureStore.branch "feature").value = .ok featureBranch ∧
      featureStore.disk.isDirectory (featureBranch.buildDirectory 12) = true ∧
      (featureStore.load featureBranch 12).value.metadata.status = .success ∧
      featureStore.disk.isDirectory (featureBranch.buildDirectory 3) = false ∧
      (featureStore.load featureBranch 3).value.metadata = {} := by
  obtain ⟨-, -, hread⟩ := buildDirectory_of_recorded featureStore branch_feature
  obtain ⟨hthere, hloaded, -, -⟩ := hread 12 (by decide)
  obtain ⟨-, hloaded', -, hmissing⟩ := hread 3 (by decide)
  have hbuild : ∃ e, featureStore.IsBuild "feature" e 12 ∧
      join (featureStore.buildsOf "feature") e.1 = featureBranch.buildDirectory 12 :=
    ⟨_, ⟨List.mem_of_getElem? (i := 2) rfl, by decide, by decide⟩, by decide⟩
  have hstatus : (featureStore.kept (featureBranch.buildDirectory 12)).metadata.status = .success := by
    decide +kernel
  have hthree : featureStore.disk.isDirectory (featureBranch.buildDirectory 3) = false := by decide
  refine ⟨branch_feature, hthere.mpr hbuild, ?_, hthree, ?_⟩
  · rw [(hloaded ⟨featureBranch, 12, none, {}⟩ rfl rfl).1, hstatus]
  · rw [(hloaded' ⟨featureBranch, 3, none, {}⟩ rfl rfl).1, hmissing hthree]

/-- A branch whose only build is in a directory with zeros in front of its number. -/
def paddedStore : Store where
  disk := ⟨.directory [("h", .directory [("branches", .directory [("main", .directory [
    ("builds", .directory [("007", .directory [
      ("build.toml", .file "status = \"success\"\n".toUTF8)])])])])])], []⟩
  root := "h"

/-- **The results of a recorded build may be out of reach**: build 7 was a success, by what is in
the directory that records it, and is read as one that has not been built. -/
theorem buildDirectory_paddedStore :
    (paddedStore.branch "main").value = .ok ⟨"main", "h/branches/main", none, [7]⟩ ∧
      readDocument paddedStore.disk "h/branches/main/builds/007/build.toml" Metadata.ofToml?
        = .ok (some ⟨.success, false, none, none⟩) ∧
      paddedStore.disk.isDirectory (Branch.buildDirectory ⟨"main", "h/branches/main", none, [7]⟩ 7)
        = false ∧
      (paddedStore.load ⟨"main", "h/branches/main", none, [7]⟩ 7).value.metadata = {} := by
  have hmissing : paddedStore.disk.isDirectory
      (Branch.buildDirectory ⟨"main", "h/branches/main", none, [7]⟩ 7) = false := by decide
  refine ⟨?_, by decide +kernel, hmissing, ?_⟩
  · exact branch_of_list none (by decide) rfl (by decide) (List.pairwise_singleton _ _)
  · rw [metadata_load (b := ⟨⟨"main", "h/branches/main", none, [7]⟩, 7, none, {}⟩)]
    exact congrArg Kept.metadata (kept_of_missing (by decide) hmissing)

end Store

end TestLanes.History
