import Mathlib.Data.List.Infix
import TestLanes.Estimate.Listing
import TestLanes.Proofs.Entity.Gather
import TestLanes.Proofs.Entity.Patterns
import TestLanes.Proofs.Estimate.Globs
import TestLanes.Proofs.Steps

/-!
# Entities of source files

The globs of test sources and the keys of test sources agree on what lies below a source root: the
key of a file that the globs match is the part behind a source root, without its extension
(`followsRoot_of_sourceKey?`).  They do not agree on line feeds.  These may stand in a path, but not
in a key, so a file has no key exactly if there is a line feed behind each of its source roots
(`IsTestSource.sourceKey?_eq_none_iff`).

The first pattern of a file is made of its key as that of a class is made of a dotted name.  So it
names the file unless there is a dot in the key (`exists_head?_elements_iff`).
-/

namespace TestLanes.Estimate

open Text (dropPrefix? dropPrefix?_eq_some_iff dropSuffix? dropSuffix?_eq_some_iff)

/-! ## 1. Keys

The search for a key prefers the root in front, and else the last one that leaves a key.  Which root
it takes is not needed: a key that is found stands behind some root, and none is found only if
nothing behind any root has a key.  Both are proved by induction along the path.
-/

/-- The part of a path behind one of its source roots; the root is in front or follows a slash. -/
def FollowsRoot (path rest : String) : Prop := Below '/' path.toList (sourceRoot ++ rest.toList)

theorem stem?_eq_some_iff {rest key : List Char} : stem? rest = some key ↔
    rest = key ++ sourceExtension ∧ key ≠ [] ∧ '\n' ∉ key := by
  rw [stem?, Option.filter_eq_some_iff, dropSuffix?_eq_some_iff]
  simp

theorem exists_of_innerKey? {cs key : List Char} (h : innerKey? cs = some key) :
    ∃ front rest, cs = front ++ '/' :: (sourceRoot ++ rest) ∧ stem? rest = some key := by
  induction cs with
  | nil => exact nomatch h
  | cons c cs ih =>
    rw [innerKey?] at h
    cases hlater : innerKey? cs with
    | some later =>
      rw [hlater] at h ih
      obtain ⟨front, rest, rfl, hrest⟩ := ih h
      exact ⟨c :: front, rest, rfl, hrest⟩
    | none =>
      rw [hlater] at h
      dsimp only at h
      split at h
      · rename_i hc
        obtain ⟨rest, hroot, hrest⟩ := Option.bind_eq_some_iff.mp h
        exact ⟨[], rest, by rw [hc, dropPrefix?_eq_some_iff.mp hroot]; rfl, hrest⟩
      · exact nomatch h

theorem innerKey?_eq_none_iff {cs : List Char} : innerKey? cs = none ↔
    ∀ front rest, cs = front ++ '/' :: (sourceRoot ++ rest) → stem? rest = none := by
  constructor
  · intro h
    induction cs with
    | nil => exact fun front rest hcs => by simp at hcs
    | cons c cs ih =>
      rw [innerKey?] at h
      cases hlater : innerKey? cs with
      | some later =>
        rw [hlater] at h
        exact nomatch h
      | none =>
        rw [hlater] at h
        intro front rest hcs
        cases front with
        | cons _ front => exact ih hlater front rest (List.cons.inj hcs).2
        | nil =>
          obtain ⟨rfl, rfl⟩ := List.cons.inj hcs
          dsimp only at h
          rw [if_pos rfl, dropPrefix?_eq_some_iff.mpr rfl] at h
          exact h
  · intro h
    refine Option.eq_none_iff_forall_ne_some.mpr fun key hkey => ?_
    obtain ⟨front, rest, hcs, hrest⟩ := exists_of_innerKey? hkey
    exact absurd (hrest.symm.trans (h front rest hcs)) (Option.some_ne_none key)

/-- A key lies behind a source root. -/
theorem exists_of_sourceKey? {path key : String} (h : sourceKey? path = some key) :
    ∃ rest, FollowsRoot path rest ∧ stem? rest.toList = some key.toList := by
  obtain ⟨cs, hcs, rfl⟩ := Option.map_eq_some_iff.mp h
  rw [String.toList_ofList]
  rcases Option.or_eq_some_iff.mp hcs with houter | ⟨-, hinner⟩
  · obtain ⟨rest, hroot, hrest⟩ := Option.bind_eq_some_iff.mp houter
    refine ⟨.ofList rest, .inl ?_, ?_⟩
    · rw [String.toList_ofList, dropPrefix?_eq_some_iff.mp hroot]
    · rw [String.toList_ofList, hrest]
  · obtain ⟨front, rest, hpath, hrest⟩ := exists_of_innerKey? hinner
    refine ⟨.ofList rest, .inr ⟨front, ?_⟩, ?_⟩
    · rw [String.toList_ofList, hpath]
    · rw [String.toList_ofList, hrest]

theorem sourceKey?_eq_none_iff {path : String} : sourceKey? path = none ↔
    ∀ rest, FollowsRoot path rest → stem? rest.toList = none := by
  constructor
  · intro h rest hrest
    obtain ⟨houter, hinner⟩ := Option.or_eq_none_iff.mp (Option.map_eq_none_iff.mp h)
    rcases hrest with hfront | ⟨front, hpath⟩
    · rwa [dropPrefix?_eq_some_iff.mpr hfront.symm] at houter
    · exact innerKey?_eq_none_iff.mp hinner front _ hpath
  · intro h
    refine Option.eq_none_iff_forall_ne_some.mpr fun key hkey => ?_
    obtain ⟨rest, hrest, hstem⟩ := exists_of_sourceKey? hkey
    exact absurd (hstem.symm.trans (h rest hrest)) (Option.some_ne_none _)

/-- **A key is what stands behind a source root**, without the extension. -/
theorem followsRoot_of_sourceKey? {path key : String} (h : sourceKey? path = some key) :
    FollowsRoot path (key ++ ".java") := by
  obtain ⟨rest, hrest, hstem⟩ := exists_of_sourceKey? h
  have heq : key ++ ".java" = rest := by
    rw [← String.toList_inj, String.toList_append, (stem?_eq_some_iff.mp hstem).1]
    rfl
  rwa [heq]

/-! ## 2. Files that the globs match

Every name that the patterns accept ends with the extension and has something before it.  The name
is at the end of the path, so the same holds of whatever stands behind a root of the path; then only
a line feed can keep it from being a key.
-/

/-- The names end with the extension, and have something before it. -/
theorem IsTestName.exists_stem {name : List Char} (h : IsTestName name) :
    '/' ∉ name ∧ ∃ stem, stem ≠ [] ∧ name = stem ++ sourceExtension := by
  obtain ⟨ends, hends, middle, hslash, rfl⟩ := h
  have hslashes : ∀ ends ∈ sourceNames, '/' ∉ ends.1.toList ∧ '/' ∉ ends.2.toList := by decide
  obtain ⟨hfront, hback⟩ := hslashes ends hends
  obtain ⟨back, heq, hne⟩ : ∃ back, ends.2.toList = back ++ sourceExtension ∧
      ends.1.toList ++ back ≠ [] := by
    simp only [sourceNames, List.mem_cons, List.not_mem_nil, or_false] at hends
    rcases hends with rfl | rfl | rfl | rfl
    · exact ⟨[], by decide⟩
    · exact ⟨"Test".toList, by decide⟩
    · exact ⟨"Tests".toList, by decide⟩
    · exact ⟨"TestCase".toList, by decide⟩
  refine ⟨by simp [hfront, hslash, hback], ends.1.toList ++ (middle ++ back), ?_, by simp [heq]⟩
  intro hnil
  obtain ⟨hnone, hrest⟩ := List.append_eq_nil_iff.mp hnil
  exact hne (List.append_eq_nil_iff.mpr ⟨hnone, (List.append_eq_nil_iff.mp hrest).2⟩)

/-- So does what stands behind a source root of such a file, because the name is a part of it. -/
theorem IsTestSource.exists_stem {path rest : String} (hpath : IsTestSource path)
    (hrest : FollowsRoot path rest) :
    ∃ stem, stem ≠ [] ∧ rest.toList = stem ++ sourceExtension := by
  obtain ⟨inside, name, hinside, hname, htest⟩ := isTestSource_iff.mp hpath
  obtain ⟨hslash, stem, hstem, rfl⟩ := htest.exists_stem
  have hroot : ∀ cs, Below '/' (sourceRoot ++ cs) cs := fun _ => .inr ⟨"src/test/java".toList, rfl⟩
  obtain ⟨front, hfront⟩ := (hrest.trans (hroot _)).exists_append
    ((hinside.trans (hroot _)).trans hname) hslash
  refine ⟨front ++ stem, fun hnil => hstem (List.append_eq_nil_iff.mp hnil).2, ?_⟩
  rw [hfront, List.append_assoc]

/-- Of such a row of characters only a line feed keeps a key from being taken. -/
theorem stem?_eq_none_iff {stem : List Char} (hstem : stem ≠ []) :
    stem? (stem ++ sourceExtension) = none ↔ '\n' ∈ stem ++ sourceExtension := by
  constructor
  · intro hnone
    refine Decidable.byContradiction fun hfeed => ?_
    rw [List.mem_append, not_or] at hfeed
    have hkey := stem?_eq_some_iff.mpr ⟨rfl, hstem, hfeed.1⟩
    exact Option.some_ne_none _ (hkey.symm.trans hnone)
  · intro hfeed
    refine Option.eq_none_iff_forall_ne_some.mpr fun key hkey => ?_
    obtain ⟨heq, -, hnot⟩ := stem?_eq_some_iff.mp hkey
    rw [heq, List.mem_append] at hfeed
    exact hfeed.elim hnot (by decide)

/-- **Files that the globs match have a key**, unless there is a line feed behind each of their
source roots. -/
theorem IsTestSource.sourceKey?_eq_none_iff {path : String} (hpath : IsTestSource path) :
    sourceKey? path = none ↔ ∀ rest, FollowsRoot path rest → '\n' ∈ rest.toList := by
  rw [Estimate.sourceKey?_eq_none_iff]
  refine forall₂_congr fun rest hrest => ?_
  obtain ⟨stem, hstem, heq⟩ := hpath.exists_stem hrest
  rw [heq, stem?_eq_none_iff hstem]

theorem IsTestSource.exists_followsRoot {path : String} (hpath : IsTestSource path) :
    ∃ rest, FollowsRoot path rest := by
  obtain ⟨rest, -, hrest, -⟩ := isTestSource_iff.mp hpath
  exact ⟨.ofList rest, by rwa [FollowsRoot, String.toList_ofList]⟩

/-- The files that are listed on a disk are such files. -/
theorem isTestSource_of_diskWorkspace {d : Files.Disk} {root : String} {paths : List String}
    (h : (diskWorkspace d root sourcePatterns).value = .ok paths) :
    ∀ path ∈ paths, IsTestSource path := by
  have hvalue : (diskWorkspace d root sourcePatterns).value = listFiles d root sourcePatterns := by
    unfold diskWorkspace
    dsimp only
    split <;> rfl
  rw [hvalue, listFiles] at h
  cases hglobs : sourcePatterns.mapM Glob.read with
  | none => simp [hglobs] at h
  | some globs =>
    cases hentry : d.entry root with
    | error e => simp [hglobs, hentry] at h
    | ok entry =>
      simp only [hglobs, hentry, Except.ok.injEq] at h
      intro path hpath
      rw [← h] at hpath
      exact ⟨globs, hglobs, (List.mem_filter.mp hpath).2⟩

/-! ## 3. Entities

The entities of paths are those that their keys give, one for each key, as all have the same time.
One path without a key leaves no entities at all, and the fault names it.
-/

theorem sourceEntity_eq_ok_iff {path : String} {e : Entity} : sourceEntity path = .ok e ↔
    ∃ key, sourceKey? path = some key ∧ e = ⟨key, Entity.estimatedDuration, .testClass⟩ := by
  rw [sourceEntity]
  cases sourceKey? path with
  | none => simp
  | some key => simp [eq_comm]

theorem sourceEntity_eq_error_iff {path : String} {e : EstimateError} :
    sourceEntity path = .error e ↔ sourceKey? path = none ∧ e = .unexpectedLayout path := by
  rw [sourceEntity]
  cases sourceKey? path with
  | none => simp [eq_comm]
  | some key => simp

/-- **The entities of paths**, if each path has a key. -/
theorem mem_ofPaths_iff {paths : List String} {m : EntityMap} (h : ofPaths paths = .ok m)
    {e : Entity} : e ∈ m.toList ↔ ∃ path ∈ paths, sourceEntity path = .ok e := by
  obtain ⟨es, hes, hm⟩ := bind_eq_ok_iff.mp h
  obtain rfl := Except.ok.inj hm
  rw [EntityMap.mem_ofList_iff, mem_iff_of_mapM_eq_ok hes]
  intro a ha b hb hkey
  obtain ⟨_, -, ha⟩ := (mem_iff_of_mapM_eq_ok hes).mp ha
  obtain ⟨_, -, hb⟩ := (mem_iff_of_mapM_eq_ok hes).mp hb
  obtain ⟨key, -, rfl⟩ := sourceEntity_eq_ok_iff.mp ha
  obtain ⟨key', -, rfl⟩ := sourceEntity_eq_ok_iff.mp hb
  obtain rfl : key = key' := hkey
  rfl

theorem exists_ofPaths_eq_ok_iff {paths : List String} :
    (∃ m, ofPaths paths = .ok m) ↔ ∀ path ∈ paths, sourceKey? path ≠ none := by
  have hmap : (∃ m, ofPaths paths = .ok m) ↔ ∃ es, paths.mapM sourceEntity = .ok es := by
    constructor
    · rintro ⟨m, h⟩
      obtain ⟨es, hes, -⟩ := bind_eq_ok_iff.mp h
      exact ⟨es, hes⟩
    · rintro ⟨es, hes⟩
      exact ⟨.ofList es, bind_eq_ok_iff.mpr ⟨es, hes, rfl⟩⟩
  rw [hmap, exists_mapM_eq_ok_iff]
  refine forall₂_congr fun path _ => ?_
  rw [sourceEntity]
  cases sourceKey? path <;> simp

theorem exists_of_ofPaths_eq_error {paths : List String} {e : EstimateError}
    (h : ofPaths paths = .error e) :
    ∃ path ∈ paths, sourceKey? path = none ∧ e = .unexpectedLayout path := by
  cases hes : paths.mapM sourceEntity with
  | ok es => exact absurd (h.symm.trans (bind_eq_ok_iff.mpr ⟨es, hes, rfl⟩)) (fun h => nomatch h)
  | error e' =>
    rw [ofPaths, hes] at h
    obtain rfl : e' = e := Except.error.inj h
    obtain ⟨path, hpath, herror⟩ := exists_of_mapM_eq_error hes
    exact ⟨path, hpath, sourceEntity_eq_error_iff.mp herror⟩

theorem FollowsRoot.isSuffix {path rest : String} (h : FollowsRoot path rest) :
    rest.toList <:+ path.toList := by
  rcases h with h | ⟨front, h⟩
  · exact ⟨sourceRoot, h⟩
  · exact ⟨front ++ '/' :: sourceRoot, by simp [h]⟩

/-- **The first pattern names the file** exactly if there is no dot in the key. -/
theorem exists_head?_elements_iff {path : String} {e : Entity} (h : sourceEntity path = .ok e) :
    (∃ rest, FollowsRoot path rest ∧ e.elements.head? = some rest) ↔ '.' ∉ e.key.toList := by
  obtain ⟨key, hkey, rfl⟩ := sourceEntity_eq_ok_iff.mp h
  have hfile := followsRoot_of_sourceKey? hkey
  rw [Entity.elements_of_testClass rfl, ← Entity.classPath_eq_self_iff]
  constructor
  · rintro ⟨rest, hrest, hhead⟩
    obtain rfl := Option.some.inj hhead
    -- both are what ends the path, and both are of the same length
    have hlength : (Entity.classPath key ++ ".java").toList.length
        = (key ++ ".java").toList.length := by
      simp only [String.toList_append, List.length_append, Entity.length_classPath]
    have hsuffix := List.suffix_of_suffix_length_le hrest.isSuffix hfile.isSuffix hlength.le
    have heq := String.toList_inj.mp (hsuffix.eq_of_length hlength)
    exact (String.append_left_inj _).mp heq
  · intro hpath
    exact ⟨_, hfile, by rw [hpath]; rfl⟩

/-! ## 4. Estimates

The estimate of a workspace is taken over the paths that it lists.  Any workspace will do whose
paths match one of the globs; a directory of a disk is one, whatever is below it.
-/

/-- **Estimates of test sources.**  Let a workspace list only files that one of the globs matches,
as every directory of a disk does.  Each of them lies below a source root.  There are entities
unless some file has a line feed behind each of its source roots, and the fault then names such a
file.  Otherwise each file has its entity: a class whose key is what stands behind a source root,
without the extension, and whose first pattern names the file exactly if there is no dot in the key.
And there is no other entity. -/
theorem classes_of_testSources {workspace : Workspace} {paths : List String}
    (hlisted : (workspace sourcePatterns).value = .ok paths)
    (hsource : ∀ path ∈ paths, IsTestSource path) :
    (∀ (d : Files.Disk) (root : String) (listed : List String),
      (diskWorkspace d root sourcePatterns).value = .ok listed →
        ∀ path ∈ listed, IsTestSource path) ∧
    (∀ path ∈ paths, ∃ rest, FollowsRoot path rest) ∧
    ((∃ m, (classes workspace).value = .ok m) ↔
      ∀ path ∈ paths, ∃ rest, FollowsRoot path rest ∧ '\n' ∉ rest.toList) ∧
    (∀ e, (classes workspace).value = .error e → ∃ path ∈ paths, e = .unexpectedLayout path ∧
      ∀ rest, FollowsRoot path rest → '\n' ∈ rest.toList) ∧
    ∀ m, (classes workspace).value = .ok m →
      (∀ path ∈ paths, ∃ e ∈ m.toList, sourceKey? path = some e.key ∧
        FollowsRoot path (e.key ++ ".java") ∧ e.kind = .testClass ∧
        e.duration = Entity.estimatedDuration ∧
        ((∃ rest, FollowsRoot path rest ∧ e.elements.head? = some rest) ↔ '.' ∉ e.key.toList)) ∧
      ∀ e ∈ m.toList, ∃ path ∈ paths, sourceKey? path = some e.key := by
  have hclasses : (classes workspace).value = ofPaths paths := by
    show (workspace sourcePatterns).value.bind ofPaths = ofPaths paths
    rw [hlisted]
    rfl
  rw [hclasses]
  refine ⟨fun d root listed hdisk => isTestSource_of_diskWorkspace hdisk,
    fun path hpath => (hsource path hpath).exists_followsRoot, ?_, ?_, ?_⟩
  · rw [exists_ofPaths_eq_ok_iff]
    refine forall₂_congr fun path hpath => ?_
    rw [Ne, (hsource path hpath).sourceKey?_eq_none_iff]
    simp only [not_forall, exists_prop]
  · intro e he
    obtain ⟨path, hpath, hnone, rfl⟩ := exists_of_ofPaths_eq_error he
    exact ⟨path, hpath, rfl, (hsource path hpath).sourceKey?_eq_none_iff.mp hnone⟩
  · intro m hm
    constructor
    · intro path hpath
      obtain ⟨key, hkey⟩ := Option.ne_none_iff_exists'.mp
        (exists_ofPaths_eq_ok_iff.mp ⟨m, hm⟩ path hpath)
      have hentity : sourceEntity path = .ok ⟨key, Entity.estimatedDuration, .testClass⟩ :=
        sourceEntity_eq_ok_iff.mpr ⟨key, hkey, rfl⟩
      exact ⟨_, (mem_ofPaths_iff hm).mpr ⟨path, hpath, hentity⟩, hkey, followsRoot_of_sourceKey? hkey,
        rfl, rfl, exists_head?_elements_iff hentity⟩
    · intro e he
      obtain ⟨path, hpath, hentity⟩ := (mem_ofPaths_iff hm).mp he
      obtain ⟨key, hkey, rfl⟩ := sourceEntity_eq_ok_iff.mp hentity
      exact ⟨path, hpath, hkey⟩

def dottedSource : String := "src/test/java/a.b/FooTest.java"

theorem isTestSource_dottedSource : IsTestSource dottedSource :=
  isTestSource_iff.mpr ⟨"a.b/FooTest.java".toList, "FooTest.java".toList, .inl (by decide),
    .inr ⟨"a.b".toList, by decide⟩, ("", "Test.java"), by decide, "Foo".toList, by decide, by decide⟩

def moduleSource : String := "module/src/test/java/TestBar.java"

theorem isTestSource_moduleSource : IsTestSource moduleSource :=
  isTestSource_iff.mpr ⟨"TestBar.java".toList, "TestBar.java".toList,
    .inr ⟨"module".toList, by decide⟩, .inl rfl, ("Test", ".java"), by decide, "Bar".toList, by decide,
    by decide⟩

/-- Both files have their entities, and one of them is not named by its first pattern. -/
theorem classes_of_testSources_dottedSource :
    let workspace : Workspace := fun _ => pure (.ok [moduleSource, dottedSource])
    (∀ path ∈ [moduleSource, dottedSource], IsTestSource path) ∧
      ∃ m, (classes workspace).value = .ok m ∧
        (∀ path ∈ [moduleSource, dottedSource], ∃ e ∈ m.toList, sourceKey? path = some e.key ∧
          FollowsRoot path (e.key ++ ".java") ∧ e.kind = .testClass ∧
          e.duration = Entity.estimatedDuration ∧
          ((∃ rest, FollowsRoot path rest ∧ e.elements.head? = some rest) ↔
            '.' ∉ e.key.toList)) ∧
        ∀ e ∈ m.toList, ∃ path ∈ [moduleSource, dottedSource], sourceKey? path = some e.key := by
  intro workspace
  have hsource : ∀ path ∈ [moduleSource, dottedSource], IsTestSource path := by
    simp [isTestSource_moduleSource, isTestSource_dottedSource]
  have hlisted : (workspace sourcePatterns).value = .ok [moduleSource, dottedSource] := rfl
  have hclasses := classes_of_testSources hlisted hsource
  exact ⟨hsource, _, rfl, hclasses.2.2.2.2 _ rfl⟩

def brokenSource : String := "src/test/java/a\nb/FooTest.java"

/-- **Files that their estimate misses.**  The globs match both files.  The first pattern of one
names a file in another directory, and for the other one there is no entity, but a fault. -/
theorem classes_miss_sources :
    IsTestSource dottedSource ∧
      (classes fun _ => pure (.ok [dottedSource])).value
        = .ok (.ofList [⟨"a.b/FooTest", Entity.estimatedDuration, .testClass⟩]) ∧
      Entity.elements ⟨"a.b/FooTest", Entity.estimatedDuration, .testClass⟩
        = ["a/b/FooTest.java", "a/b/FooTest.class"] ∧
      (∀ rest, FollowsRoot dottedSource rest → rest ≠ "a/b/FooTest.java") ∧
      IsTestSource brokenSource ∧
      (classes fun _ => pure (.ok [brokenSource])).value
        = .error (.unexpectedLayout brokenSource) := by
  have hentity : sourceEntity dottedSource
      = .ok ⟨"a.b/FooTest", Entity.estimatedDuration, .testClass⟩ := rfl
  have hbroken : IsTestSource brokenSource :=
    isTestSource_iff.mpr ⟨"a\nb/FooTest.java".toList, "FooTest.java".toList, .inl (by decide),
      .inr ⟨"a\nb".toList, by decide⟩, ("", "Test.java"), by decide, "Foo".toList, by decide,
      by decide⟩
  refine ⟨isTestSource_dottedSource, rfl, by decide, ?_, hbroken, rfl⟩
  rintro rest hrest rfl
  exact (exists_head?_elements_iff hentity).mp ⟨_, hrest, by decide⟩ (by decide)

end TestLanes.Estimate
