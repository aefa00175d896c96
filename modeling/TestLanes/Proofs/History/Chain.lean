import Mathlib.Data.List.Sort
import TestLanes.History.Store
import TestLanes.Proofs.History.Walk
import TestLanes.Proofs.Text.Numeral

/-!
# The chain of the builds of a branch

What is recorded for a branch are the numbers that the directories of its builds spell
(`Store.Records`), whatever else is there, and however often a number is spelled.  They are listed
in ascending order (`mem_builds`, `ascending_of_branch`), so the number in front of the place of
another one is the largest one below it (`before?_eq_some_iff`).  Going back from any number,
recorded or not, visits each recorded number below it once, in descending order (`chain_previous`),
and stays on the branch, with the target that the first build has (`chain_visits_recorded`).

The build that a plan is made for is the one behind all that are recorded, unless these use up the
numbers there are (`exists_nextNumber_eq_ok`); from there the chain visits all of them
(`currentBuild_after_recorded`).
-/

namespace TestLanes.History

open Files (Entries join)
open Logged (value_bind)

/-! ## 1. Ascending numbers

A number stands at the place in front of which everything is smaller.  So what stands before it is
the last one of the smaller numbers, whether or not the number itself is there; where the place is
the first one there is nothing before it.  The numbers below a number, in descending order, then
satisfy the equations of a chain (`earlier_eq_cons`, `earlier_eq_nil`), and the descent is strict
even where a number is listed twice.
-/

/-- The last one of ascending numbers is the largest one. -/
theorem getLast?_eq_some_iff_of_pairwise {ns : List Nat} (h : ns.Pairwise (· ≤ ·)) {m : Nat} :
    ns.getLast? = some m ↔ m ∈ ns ∧ ∀ k ∈ ns, k ≤ m := by
  have hlast : ∀ {l}, ns.getLast? = some l → l ∈ ns ∧ ∀ k ∈ ns, k ≤ l := by
    intro l hl
    obtain ⟨front, rfl⟩ := List.getLast?_eq_some_iff.mp hl
    refine ⟨List.mem_concat_self, fun k hk => ?_⟩
    rcases List.mem_append.mp hk with hk | hk
    · exact (List.pairwise_append.mp h).2.2 k hk l (List.mem_singleton_self l)
    · exact Nat.le_of_eq (List.mem_singleton.mp hk)
  refine ⟨hlast, fun ⟨hm, hmax⟩ => ?_⟩
  cases hl : ns.getLast? with
  | none =>
    rw [List.getLast?_eq_none_iff.mp hl] at hm
    cases hm
  | some l =>
    obtain ⟨hmem, hle⟩ := hlast hl
    exact congrArg some (Nat.le_antisymm (hmax l hmem) (hle m hm))

namespace Branch

/-- The numbers of a branch are in ascending order. -/
def Ascending (b : Branch) : Prop := b.builds.Pairwise (· ≤ ·)

variable {b : Branch} {n m : Nat}

/-- What stands in front of the place of a number is the last one below it. -/
theorem before?_eq_getLast? (h : b.Ascending) (n : Nat) :
    b.before? n = (b.builds.filter fun m => decide (m < n)).getLast? := by
  obtain ⟨name, directory, target, ns⟩ := b
  induction ns with
  | nil => rfl
  | cons k ns ih =>
    obtain ⟨hk, hns⟩ := List.pairwise_cons.mp h
    by_cases hkn : k < n
    · have hplace : (k :: ns).findIdx (fun m => decide (n ≤ m))
          = ns.findIdx (fun m => decide (n ≤ m)) + 1 := by
        rw [List.findIdx_cons, decide_eq_false (Nat.not_le.mpr hkn), cond_false]
      rw [List.filter_cons_of_pos (by simp [hkn]), List.getLast?_cons, ← ih hns, before?, before?,
        hplace]
      have hle : ns.findIdx (fun m => decide (n ≤ m)) ≤ ns.length := List.findIdx_le_length
      cases hi : ns.findIdx fun m => decide (n ≤ m) with
      | zero => rfl
      | succ place =>
        have hlt : place < ns.length := by omega
        simp only [List.getElem?_cons_succ, List.getElem?_eq_getElem hlt, Option.getD_some]
    · have hnone : (k :: ns).filter (fun m => decide (m < n)) = [] := by
        refine List.filter_eq_nil_iff.mpr fun m hm hlt => ?_
        have hmn : m < n := of_decide_eq_true hlt
        rcases List.mem_cons.mp hm with rfl | hm
        · exact hkn hmn
        · exact hkn (Nat.lt_of_le_of_lt (hk m hm) hmn)
      rw [hnone, before?, List.findIdx_cons, decide_eq_true (Nat.not_lt.mp hkn)]
      rfl

/-- **The number before** is the largest recorded one that is smaller. -/
theorem before?_eq_some_iff (h : b.Ascending) :
    b.before? n = some m ↔ m ∈ b.builds ∧ m < n ∧ ∀ k ∈ b.builds, k < n → k ≤ m := by
  rw [before?_eq_getLast? h, getLast?_eq_some_iff_of_pairwise (h.filter _)]
  simp only [List.mem_filter, decide_eq_true_eq, and_imp, and_assoc]

theorem before?_eq_none_iff (h : b.Ascending) : b.before? n = none ↔ ∀ k ∈ b.builds, n ≤ k := by
  rw [before?_eq_getLast? h, List.getLast?_eq_none_iff, List.filter_eq_nil_iff]
  simp only [decide_eq_true_eq, Nat.not_lt]

/-- The recorded numbers below a number in descending order. -/
def earlier (b : Branch) (n : Nat) : List Nat :=
  (List.range n).reverse.filter fun m => m ∈ b.builds

theorem mem_earlier : m ∈ b.earlier n ↔ m ∈ b.builds ∧ m < n := by
  simp only [earlier, List.mem_filter, List.mem_reverse, List.mem_range, decide_eq_true_eq, and_comm]

theorem pairwise_earlier (b : Branch) (n : Nat) : (b.earlier n).Pairwise (· > ·) :=
  (List.pairwise_reverse.mpr List.pairwise_lt_range).filter _

/-- The first one of them is the number before, and the other ones are those before that. -/
theorem earlier_eq_cons (h : b.Ascending) (hm : b.before? n = some m) :
    b.earlier n = m :: b.earlier m := by
  obtain ⟨hmem, hlt, hmax⟩ := (before?_eq_some_iff h).mp hm
  have hfirst : (m :: b.earlier m).Pairwise (· > ·) :=
    List.pairwise_cons.mpr ⟨fun k hk => (mem_earlier.mp hk).2, b.pairwise_earlier m⟩
  refine (b.pairwise_earlier n).eq_of_mem_iff hfirst fun k => ?_
  rw [List.mem_cons, mem_earlier, mem_earlier]
  constructor
  · rintro ⟨hk, hkn⟩
    rcases Nat.lt_or_eq_of_le (hmax k hk hkn) with hkm | rfl
    · exact Or.inr ⟨hk, hkm⟩
    · exact Or.inl rfl
  · rintro (rfl | ⟨hk, hkm⟩)
    · exact ⟨hmem, hlt⟩
    · exact ⟨hk, Nat.lt_trans hkm hlt⟩

theorem earlier_eq_nil (h : b.Ascending) (hnone : b.before? n = none) : b.earlier n = [] := by
  refine List.eq_nil_iff_forall_not_mem.mpr fun k hk => ?_
  obtain ⟨hk, hkn⟩ := mem_earlier.mp hk
  exact Nat.not_le.mpr hkn ((before?_eq_none_iff h).mp hnone k hk)

end Branch

namespace Store

variable (s : Store)

/-! ## 2. What is recorded

`Records` is about the disk alone: there is a directory below the builds of the branch whose name
spells the number.  Files, and directories with other names, record nothing.  Everything about the
numbers of a branch is stated with it, so that nothing below depends on how a branch is read.
-/

def buildsOf (name : String) : String := buildsDirectory (join (join s.root "branches") name)

def buildEntries (name : String) : Entries := (s.disk.list (s.buildsOf name)).toOption.getD []

/-- The entry is a directory, and its name spells the number. -/
def IsBuild (name : String) (e : String × Files.Entry) (n : Nat) : Prop :=
  e ∈ s.buildEntries name ∧ s.disk.isDirectory (join (s.buildsOf name) e.1) = true ∧
    Text.readNumeral? e.1 = some n

/-- A build with the number is recorded for the branch. -/
def Records (name : String) (n : Nat) : Prop := ∃ e, s.IsBuild name e n

variable {s} {name : String} {br : Branch}

theorem mem_buildNumbers {directory : String} {es : Entries} {n : Nat} :
    n ∈ buildNumbers s.disk directory es
      ↔ ∃ e ∈ es, s.disk.isDirectory (join directory e.1) = true ∧ Text.readNumeral? e.1 = some n := by
  simp only [buildNumbers, List.mem_mergeSort, List.mem_filterMap, buildNumber?,
    Option.ite_none_right_eq_some]

/-- A branch that can be read has the builds that are in its directory. -/
theorem branch_eq_ok (h : (s.branch name).value = .ok br) :
    br.name = name ∧ br.directory = join (join s.root "branches") name ∧
      br.builds = buildNumbers s.disk (s.buildsOf name) (s.buildEntries name) := by
  unfold branch at h
  dsimp only at h
  split at h
  · cases h
  · rw [value_bind, listBuilds] at h
    unfold buildEntries buildsOf
    split at h
    · next es hes =>
      obtain rfl := Except.ok.inj h
      rw [hes]
      exact ⟨rfl, rfl, rfl⟩
    · next hmissing =>
      obtain rfl := Except.ok.inj h
      rw [hmissing]
      exact ⟨rfl, rfl, List.mergeSort_nil.symm⟩
    · cases h

theorem branch_of_list (target : Option (Option String)) {es : Entries} {ns : List Nat}
    (hdocument : readDocument s.disk (join (join (join s.root "branches") name) "branch.toml")
      changeTarget? = .ok target)
    (hlist : s.disk.list (s.buildsOf name) = .ok es)
    (hns : es.filterMap (buildNumber? s.disk (s.buildsOf name)) = ns) (hsorted : ns.Pairwise (· ≤ ·)) :
    (s.branch name).value
      = .ok ⟨name, join (join s.root "branches") name, target.getD none, ns⟩ := by
  have hbuilds : buildNumbers s.disk (s.buildsOf name) es = ns := by
    rw [buildNumbers, hns]
    exact List.mergeSort_of_pairwise (hsorted.imp fun {m n} hmn => decide_eq_true hmn)
  have hlisted : (s.listBuilds name (s.buildsOf name)).value = .ok ns := by
    rw [listBuilds, hlist]
    exact congrArg Except.ok hbuilds
  unfold branch
  dsimp only
  rw [hdocument]
  dsimp only
  rw [value_bind, ← buildsOf, hlisted]
  rfl

/-- **The numbers of a branch** are those of the builds recorded for it. -/
theorem mem_builds (h : (s.branch name).value = .ok br) {n : Nat} :
    n ∈ br.builds ↔ s.Records name n := by
  rw [(branch_eq_ok h).2.2, mem_buildNumbers]
  exact exists_congr fun e => Iff.rfl

theorem ascending_of_branch (h : (s.branch name).value = .ok br) : br.Ascending := by
  rw [Branch.Ascending, (branch_eq_ok h).2.2]
  refine (List.pairwise_mergeSort ?_ ?_ _).imp fun {m n} hmn => of_decide_eq_true hmn
  · intro k m n hkm hmn
    exact decide_eq_true (Nat.le_trans (of_decide_eq_true hkm) (of_decide_eq_true hmn))
  · intro m n
    rw [Bool.or_eq_true, decide_eq_true_eq, decide_eq_true_eq]
    exact Nat.le_total m n

theorem getLast?_builds_eq_some_iff (h : (s.branch name).value = .ok br) {m : Nat} :
    br.builds.getLast? = some m ↔ s.Records name m ∧ ∀ k, s.Records name k → k ≤ m := by
  rw [getLast?_eq_some_iff_of_pairwise (ascending_of_branch h)]
  simp only [mem_builds h]

theorem getLast?_builds_eq_none_iff (h : (s.branch name).value = .ok br) :
    br.builds.getLast? = none ↔ ∀ m, ¬ s.Records name m := by
  simp only [List.getLast?_eq_none_iff, List.eq_nil_iff_forall_not_mem, mem_builds h]

theorem lt_of_records {n : Nat} (h : s.Records name n) : n < Text.wordBound := by
  obtain ⟨e, -, -, hn⟩ := h
  exact (Text.readNumeral?_eq_some_iff.mp hn).1

/-! ## 3. Going back

A build that is read has the branch and the number that it was asked for under; only the metadata
come from the disk.  The target goes with the chain: each earlier build is given the target of the
one it was reached from, so all builds of a chain have the same.  The induction is on the depth,
with the start left open.
-/

variable (s br)

def buildAt (target : Option String) (n : Nat) : StoredBuild := (s.load br n).value.withTarget target

theorem load_eq (n : Nat) :
    ∃ metadata, (s.load br n).value = ⟨br, n, br.changeTarget, metadata⟩ := by
  unfold load
  dsimp only
  split
  · exact ⟨_, rfl⟩
  · exact ⟨_, rfl⟩

theorem branch_and_number_load (n : Nat) :
    (s.load br n).value.branch = br ∧ (s.load br n).value.number = n := by
  obtain ⟨metadata, hload⟩ := s.load_eq br n
  rw [hload]
  exact ⟨rfl, rfl⟩

/-- A build of a branch has the branch, the number that was asked for, and the target that was
given, or else that of the branch. -/
theorem buildAt_eq (target : Option String) (n : Nat) :
    ∃ metadata, s.buildAt br target n = ⟨br, n, target.or br.changeTarget, metadata⟩ := by
  obtain ⟨metadata, hload⟩ := s.load_eq br n
  exact ⟨metadata, by rw [buildAt, hload, StoredBuild.withTarget]⟩

theorem buildAt_none (n : Nat) : s.buildAt br none n = (s.load br n).value := by
  obtain ⟨metadata, hload⟩ := s.load_eq br n
  rw [buildAt, hload]
  rfl

theorem map_number_buildAt (target : Option String) (ns : List Nat) :
    (ns.map (s.buildAt br target)).map StoredBuild.number = ns := by
  rw [List.map_map]
  refine Eq.trans (List.map_congr_left fun n _ => ?_) (List.map_id _)
  obtain ⟨metadata, hbuild⟩ := s.buildAt_eq br target n
  rw [Function.comp_apply, hbuild, id]

theorem archive_previous : s.archive.previous = s.previous := rfl

/-- The target is handed on from build to build. -/
theorem value_previous_buildAt (target : Option String) (n : Nat) :
    (s.previous (s.buildAt br target n)).value = (br.before? n).map (s.buildAt br target) := by
  obtain ⟨metadata, hbuild⟩ := s.buildAt_eq br target n
  rw [previous, hbuild]
  dsimp only
  cases br.before? n with
  | none => rfl
  | some m =>
    obtain ⟨metadata', hload⟩ := s.load_eq br m
    have htarget : (target.or br.changeTarget).or br.changeTarget = target.or br.changeTarget := by
      rw [Option.or_assoc, Option.or_self]
    rw [value_bind, Option.map_some, buildAt, hload]
    simp only [StoredBuild.withTarget, htarget]
    rfl

/-- **Going back visits the recorded numbers below in descending order.** -/
theorem chain_previous {br : Branch} (h : br.Ascending) (target : Option String) (depth n : Nat) :
    s.archive.chain depth (s.previous (s.buildAt br target n)).value
      = ((br.earlier n).take depth).map (s.buildAt br target) := by
  rw [value_previous_buildAt]
  induction depth generalizing n with
  | zero => rw [Archive.chain, List.take_zero, List.map_nil]
  | succ depth ih =>
    cases hm : br.before? n with
    | none =>
      rw [Branch.earlier_eq_nil h hm]
      rfl
    | some m =>
      rw [Branch.earlier_eq_cons h hm, List.take_succ_cons, List.map_cons, ← ih m,
        ← value_previous_buildAt]
      rfl

/-! ## 4. The branch that a change is made for

The newest build of the target is described in both directions, so that the absence of one can be
told as exactly as its presence.
-/

theorem value_latestOfTarget (b : StoredBuild) : (s.latestOfTarget b).value
    = b.changeTarget.bind fun target => (s.branch target).value.toOption.bind fun branch =>
        branch.builds.getLast?.map fun m => (s.load branch m).value := by
  unfold latestOfTarget
  cases b.changeTarget with
  | none => rfl
  | some target =>
    rw [value_bind, Option.bind_some]
    cases (s.branch target).value with
    | error e => rfl
    | ok branch =>
      dsimp only [Except.toOption, Option.bind_some]
      cases branch.builds.getLast? <;> rfl

/-- **The newest build of the target** is the one with the largest recorded number. -/
theorem latestOfTarget_eq_some_iff {b b' : StoredBuild} :
    (s.latestOfTarget b).value = some b' ↔ ∃ target branch m, b.changeTarget = some target ∧
      (s.branch target).value = .ok branch ∧ s.Records target m ∧
      (∀ k, s.Records target k → k ≤ m) ∧ b' = (s.load branch m).value := by
  rw [value_latestOfTarget]
  simp only [Option.bind_eq_some_iff, Option.map_eq_some_iff, toOption_eq_some_iff]
  constructor
  · rintro ⟨target, htarget, branch, hbranch, m, hm, hload⟩
    obtain ⟨hrecords, hmax⟩ := (getLast?_builds_eq_some_iff hbranch).mp hm
    exact ⟨target, branch, m, htarget, hbranch, hrecords, hmax, hload.symm⟩
  · rintro ⟨target, branch, m, htarget, hbranch, hrecords, hmax, hload⟩
    have hm := (getLast?_builds_eq_some_iff hbranch).mpr ⟨hrecords, hmax⟩
    exact ⟨target, htarget, branch, hbranch, m, hm, hload.symm⟩

/-- There is none if there is no target, if it cannot be read, or if nothing is recorded for it. -/
theorem latestOfTarget_eq_none_iff {b : StoredBuild} :
    (s.latestOfTarget b).value = none ↔ ∀ target branch, b.changeTarget = some target →
      (s.branch target).value = .ok branch → ∀ m, ¬ s.Records target m := by
  rw [value_latestOfTarget]
  simp only [Option.bind_eq_none_iff, Option.map_eq_none_iff, toOption_eq_some_iff]
  constructor
  · intro hnone target branch htarget hbranch
    exact (getLast?_builds_eq_none_iff hbranch).mp (hnone target htarget branch hbranch)
  · intro hnone target htarget branch hbranch
    exact (getLast?_builds_eq_none_iff hbranch).mpr (hnone target branch htarget hbranch)

/-- **The chain of a stored branch.**  A branch that can be read has a build of every number,
recorded or not, with the target that is given or else that of the branch.  Going back from it comes
to an end and visits the recorded numbers that are smaller, each once and in descending order, and
all builds on the way have the branch and the target of the first one.  The newest build of the
target is the one with the largest number that is recorded for it, and there is none only if there
is no target, the target cannot be read, or nothing is recorded for it. -/
theorem chain_visits_recorded (s : Store) {name : String} {br : Branch}
    (h : (s.branch name).value = .ok br) (n : Nat) (target : Option String) :
    let start := (s.load br n).value.withTarget target
    let visited := fun depth => s.archive.chain depth (s.archive.previous start).value
    (s.currentBuild name (some n)).value = .ok (s.load br n).value ∧
      start.branch = br ∧ start.number = n ∧ start.changeTarget = target.or br.changeTarget ∧
      (∃ numbers : List Nat, numbers.Pairwise (· > ·) ∧
        (∀ m, m ∈ numbers ↔ s.Records name m ∧ m < n) ∧
        ∀ depth, (visited depth).map StoredBuild.number = numbers.take depth) ∧
      (∀ depth, ∀ b ∈ visited depth, b.branch = start.branch ∧ b.changeTarget = start.changeTarget) ∧
      (∀ b, (s.archive.latestOfTarget start).value = some b ↔
        ∃ name' branch m, start.changeTarget = some name' ∧ (s.branch name').value = .ok branch ∧
          s.Records name' m ∧ (∀ k, s.Records name' k → k ≤ m) ∧ b = (s.load branch m).value) ∧
      ((s.archive.latestOfTarget start).value = none ↔
        ∀ name' branch, start.changeTarget = some name' → (s.branch name').value = .ok branch →
          ∀ m, ¬ s.Records name' m) := by
  intro start visited
  have hvisited : ∀ depth, visited depth = ((br.earlier n).take depth).map (s.buildAt br target) :=
    fun depth => s.chain_previous (ascending_of_branch h) target depth n
  have hcurrent : (s.currentBuild name (some n)).value = .ok (s.load br n).value := by
    rw [currentBuild, value_bind, h]
    rfl
  obtain ⟨metadata, hstart⟩ : ∃ metadata, start = ⟨br, n, target.or br.changeTarget, metadata⟩ :=
    s.buildAt_eq br target n
  refine ⟨hcurrent, by rw [hstart], by rw [hstart], by rw [hstart],
    ⟨br.earlier n, br.pairwise_earlier n, fun m => ?_, fun depth => ?_⟩, fun depth b hb => ?_,
    fun b => s.latestOfTarget_eq_some_iff, s.latestOfTarget_eq_none_iff⟩
  · rw [Branch.mem_earlier, mem_builds h]
  · rw [hvisited, s.map_number_buildAt]
  · rw [hvisited] at hb
    obtain ⟨m, -, rfl⟩ := List.mem_map.mp hb
    obtain ⟨metadata', hbuild⟩ := s.buildAt_eq br target m
    rw [hbuild, hstart]
    exact ⟨rfl, rfl⟩

/-- A branch with a build that is spelled in two ways, a file and a name that is no number; changes
on it are made for another branch. -/
def featureStore : Store where
  disk := ⟨.directory [("h", .directory [("branches", .directory [
    ("feature", .directory [
      ("branch.toml", .file "change-target = \"main\"\n".toUTF8),
      ("builds", .directory [("+3", .directory []), ("03", .directory []),
        ("12", .directory [("build.toml", .file "status = \"success\"\n".toUTF8)]),
        ("7", .file .empty), ("latest", .directory [])])]),
    ("main", .directory [("builds", .directory [("09", .directory []), ("10", .directory [])])])])])],
    []⟩
  root := "h"

def featureBranch : Branch := ⟨"feature", "h/branches/feature", some "main", [3, 3, 12]⟩

def mainBranch : Branch := ⟨"main", "h/branches/main", none, [9, 10]⟩

theorem branch_feature : (featureStore.branch "feature").value = .ok featureBranch :=
  branch_of_list (some (some "main")) (by decide +kernel) rfl (by decide) (by decide)

theorem branch_main : (featureStore.branch "main").value = .ok mainBranch :=
  branch_of_list none (by decide) rfl (by decide) (by decide)

/-- Before build 10, which is not recorded, there is build 3, which is visited once. -/
theorem chain_visits_recorded_featureStore :
    (featureStore.branch "feature").value = .ok featureBranch ∧
      let start := (featureStore.load featureBranch 10).value.withTarget none
      (∀ depth, (featureStore.archive.chain depth (featureStore.archive.previous start).value).map
        StoredBuild.number = [3].take depth) ∧
      (featureStore.archive.latestOfTarget start).value
        = some (featureStore.load mainBranch 10).value := by
  obtain ⟨-, -, -, htarget, ⟨numbers, hdescending, hmem, hvisited⟩, -, hlatest, -⟩ :=
    chain_visits_recorded featureStore branch_feature 10 none
  have hnumbers : numbers = [3] := by
    refine hdescending.eq_of_mem_iff (List.pairwise_singleton _ 3) fun m => ?_
    rw [hmem, ← mem_builds branch_feature]
    simp only [featureBranch, List.mem_cons, List.not_mem_nil, or_false]
    omega
  have hten : featureStore.Records "main" 10 := (mem_builds branch_main).mp (by decide)
  have hmax : ∀ k, featureStore.Records "main" k → k ≤ 10 := by
    intro k hk
    have hk := (mem_builds branch_main).mpr hk
    simp only [mainBranch, List.mem_cons, List.not_mem_nil, or_false] at hk
    omega
  exact ⟨branch_feature, hnumbers ▸ hvisited,
    (hlatest _).mpr ⟨"main", mainBranch, 10, htarget, branch_main, hten, hmax, rfl⟩⟩

/-! ## 5. The build that a plan is made for

The number behind the largest recorded one is taken if it is below 2^64.  As this is the only way in
which it can fail, it fails exactly if the largest number of 64 bits is recorded.
-/

section Current

variable {s} {name : String} {br : Branch} (h : (s.branch name).value = .ok br)
include h

theorem value_currentBuild_none :
    (s.currentBuild name none).value = (nextNumber br).map fun n => (s.load br n).value := by
  rw [currentBuild, value_bind, h]
  dsimp only [Option.elim_none]
  cases nextNumber br <;> rfl

theorem nextNumber_eq_error (hfull : s.Records name (Text.wordBound - 1)) :
    nextNumber br = .error .noNumberLeft := by
  have hlast : br.builds.getLast? = some (Text.wordBound - 1) :=
    (getLast?_builds_eq_some_iff h).mpr ⟨hfull, fun k hk => Nat.le_pred_of_lt (lt_of_records hk)⟩
  rw [nextNumber, hlast]
  rfl

/-- **The next number** is one more than the largest recorded one, or 1. -/
theorem exists_nextNumber_eq_ok (hleft : ¬ s.Records name (Text.wordBound - 1)) :
    ∃ n, nextNumber br = .ok n ∧ n < Text.wordBound ∧ (∀ m, s.Records name m → m < n) ∧
      ((∀ m, ¬ s.Records name m) ∧ n = 1 ∨ ∃ m, s.Records name m ∧ n = m + 1) := by
  unfold nextNumber
  cases hlast : br.builds.getLast? with
  | none =>
    have hnone := (getLast?_builds_eq_none_iff h).mp hlast
    exact ⟨1, rfl, by decide, fun m hm => absurd hm (hnone m), .inl ⟨hnone, rfl⟩⟩
  | some m =>
    obtain ⟨hm, hmax⟩ := (getLast?_builds_eq_some_iff h).mp hlast
    have hfits : m + 1 < Text.wordBound := by
      have hword := lt_of_records hm
      have hne : m ≠ Text.wordBound - 1 := fun heq => hleft (heq ▸ hm)
      omega
    exact ⟨m + 1, if_pos hfits, hfits, fun k hk => Nat.lt_succ_of_le (hmax k hk), .inr ⟨m, hm, rfl⟩⟩

/-- Going back far enough from behind all recorded builds visits each of them. -/
theorem exists_chain_visits_all {n : Nat} (hpast : ∀ m, s.Records name m → m < n) :
    ∃ depth, ∀ m, m ∈ (s.archive.chain depth (s.archive.previous (s.load br n).value).value).map
      StoredBuild.number ↔ s.Records name m := by
  refine ⟨(br.earlier n).length, fun m => ?_⟩
  rw [archive_previous, ← s.buildAt_none, s.chain_previous (ascending_of_branch h), List.take_length,
    s.map_number_buildAt, Branch.mem_earlier, mem_builds h]
  exact ⟨And.left, fun hm => ⟨hm, hpast m hm⟩⟩

end Current

/-- **The current build is past every recorded one**, if there is a number left for it: then it has
the number behind the largest recorded one, or 1 where nothing is recorded, and going back from it
visits all that is recorded.  There is no number left exactly if the largest number of 64 bits is
recorded. -/
theorem currentBuild_after_recorded (s : Store) (name : String) :
    (∀ e, (s.branch name).value = .error e →
      (s.currentBuild name none).value = .error (.store e)) ∧
    ∀ br, (s.branch name).value = .ok br →
      ((s.currentBuild name none).value = .error .noNumberLeft
          ↔ s.Records name (Text.wordBound - 1)) ∧
        (¬ s.Records name (Text.wordBound - 1) →
          ∃ b, (s.currentBuild name none).value = .ok b ∧ b.branch = br ∧
            b.number < Text.wordBound ∧ (∀ m, s.Records name m → m < b.number) ∧
            ((∀ m, ¬ s.Records name m) ∧ b.number = 1 ∨
              ∃ m, s.Records name m ∧ b.number = m + 1) ∧
            ∃ depth, ∀ m, m ∈ (s.archive.chain depth (s.archive.previous b).value).map
              StoredBuild.number ↔ s.Records name m) := by
  refine ⟨fun e he => by rw [currentBuild, value_bind, he]; rfl, fun br h => ?_⟩
  have hcurrent := value_currentBuild_none h
  by_cases hfull : s.Records name (Text.wordBound - 1)
  · rw [nextNumber_eq_error h hfull] at hcurrent
    exact ⟨iff_of_true hcurrent hfull, fun hleft => absurd hfull hleft⟩
  · obtain ⟨n, hn, hword, hpast, hnext⟩ := exists_nextNumber_eq_ok h hfull
    rw [hn, Except.map] at hcurrent
    refine ⟨iff_of_false (fun he => nomatch hcurrent.symm.trans he) hfull, fun _ => ?_⟩
    obtain ⟨hbranch, hnumber⟩ := s.branch_and_number_load br n
    refine ⟨(s.load br n).value, hcurrent, hbranch, ?_, ?_, ?_, exists_chain_visits_all h hpast⟩
    · rwa [hnumber]
    · rwa [hnumber]
    · rwa [hnumber]

/-- Behind build 12 there is build 13, from where builds 12 and 3 are visited. -/
theorem currentBuild_after_recorded_featureStore :
    (featureStore.branch "feature").value = .ok featureBranch ∧
      ¬ featureStore.Records "feature" (Text.wordBound - 1) ∧
      ∃ b, (featureStore.currentBuild "feature" none).value = .ok b ∧ b.number = 13 ∧
        ∃ depth, ∀ m, m ∈ (featureStore.archive.chain depth (featureStore.archive.previous b).value).map
          StoredBuild.number ↔ m = 3 ∨ m = 12 := by
  have hrecords : ∀ m, featureStore.Records "feature" m ↔ m = 3 ∨ m = 12 := by
    intro m
    rw [← mem_builds branch_feature]
    simp [featureBranch]
  have hleft : ¬ featureStore.Records "feature" (Text.wordBound - 1) := by
    rw [hrecords]
    decide
  obtain ⟨b, hcurrent, -, -, hpast, hnext, hvisited⟩ :=
    ((currentBuild_after_recorded featureStore "feature").2 featureBranch branch_feature).2 hleft
  simp only [hrecords] at hpast hnext hvisited
  refine ⟨branch_feature, hleft, b, hcurrent, ?_, hvisited⟩
  have hlast := hpast 12 (.inr rfl)
  rcases hnext with ⟨hnone, -⟩ | ⟨m, rfl | rfl, hm⟩
  · exact absurd (.inl rfl) (hnone 3)
  · omega
  · exact hm

/-- A branch whose only build has the largest number of 64 bits. -/
def fullStore : Store where
  disk := ⟨.directory [("h", .directory [("branches", .directory [("main", .directory [
    ("builds", .directory [("18446744073709551615", .directory [])])])])])], []⟩
  root := "h"

/-- **There need not be a current build**: no number of 64 bits is past the largest one. -/
theorem currentBuild_fullStore :
    (fullStore.branch "main").value = .ok ⟨"main", "h/branches/main", none, [Text.wordBound - 1]⟩ ∧
      (fullStore.currentBuild "main" none).value = .error .noNumberLeft := by
  have hbranch : (fullStore.branch "main").value
      = .ok ⟨"main", "h/branches/main", none, [Text.wordBound - 1]⟩ :=
    branch_of_list none (by decide) rfl (by decide +kernel) (List.pairwise_singleton _ _)
  refine ⟨hbranch, ?_⟩
  rw [value_currentBuild_none hbranch]
  decide

end Store

end TestLanes.History
