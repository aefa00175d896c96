import TestLanes.Proofs.Report.ClassName
import TestLanes.Proofs.Report.Grouping

/-!
# Merging trees

A tree depends on its cases only through their groups: the order in which packages and classes are
first seen, and the cases of each class in their order (`SameGroups.ofCases_eq`).  Taking the cases
back out of a tree lists them class by class, which is another order with the same groups
(`sameGroups_cases`), and lists put one behind the other keep their groups (`SameGroups.append`).
So a tree of trees is the tree of the cases that they were made from (`merge_map_treeOf`), from
which the laws of merging follow.
-/

namespace TestLanes.Report

/-! ## 1. The same groups -/

/-- Packages and classes are first seen in the same order, and the classes have the same cases. -/
structure SameGroups (cs cs' : List Case) : Prop where
  packages : packageNames cs = packageNames cs'
  classes (package : String) : classNames cs package = classNames cs' package
  cases (n : ClassName) : (cs.filter fun c => c.owner = n) = cs'.filter fun c => c.owner = n

namespace SameGroups

theorem refl (cs : List Case) : SameGroups cs cs := ⟨rfl, fun _ => rfl, fun _ => rfl⟩

/-- **Cases with the same groups make the same tree.** -/
theorem ofCases_eq {cs cs' : List Case} (h : SameGroups cs cs') (name : String) :
    Tree.ofCases name cs = Tree.ofCases name cs' := by
  have hclasses : ∀ package, classesOf cs package = classesOf cs' package := by
    intro package
    simp only [classesOf, classOf, h.classes package, h.cases]
  simp only [Report.ofCases_eq, packagesOf, h.packages, hclasses]

/-- **Groups are kept side by side.** -/
theorem append {cs cs' ds ds' : List Case} (hc : SameGroups cs cs') (hd : SameGroups ds ds') :
    SameGroups (cs ++ ds) (cs' ++ ds') where
  packages := by
    simp only [packageNames, List.map_append]
    exact eraseDups_append_congr hc.packages hd.packages
  classes package := by
    simp only [classNames, List.filter_append, List.map_append]
    exact eraseDups_append_congr (hc.classes package) (hd.classes package)
  cases n := by rw [List.filter_append, List.filter_append, hc.cases n, hd.cases n]

end SameGroups

/-! ## 2. The cases of a tree

The cases of a tree are a list of blocks: one for each package, and in it one for each class.  No
block is empty, and what is in a block has its name, so a block is what is left if the cases are
filtered by the name, and the names are first seen in the order of the blocks.
-/

/-- The cases of a package, class by class. -/
def inPackage (cs : List Case) (package : String) : List Case :=
  (classNames cs package).flatMap fun simple => cs.filter fun c => c.owner = ⟨package, simple⟩

/-- The cases of a tree stand package by package. -/
theorem cases_ofCases (name : String) (cs : List Case) :
    (Tree.ofCases name cs).cases = (packageNames cs).flatMap (inPackage cs) := by
  rw [Tree.cases, classes_ofCases, owners, List.flatMap_map, List.flatMap_assoc]
  refine congrArg (packageNames cs).flatMap (funext fun package => ?_)
  rw [List.flatMap_map]
  rfl

theorem owner_of_mem_inPackage {cs : List Case} {package : String} {c : Case}
    (h : c ∈ inPackage cs package) : c.owner.package = package := by
  obtain ⟨simple, -, hc⟩ := List.mem_flatMap.mp h
  exact congrArg ClassName.package (of_decide_eq_true (List.mem_filter.mp hc).2)

/-- A class has a case. -/
theorem filter_owner_ne_nil {cs : List Case} {package simple : String}
    (h : simple ∈ classNames cs package) :
    (cs.filter fun c => c.owner = ⟨package, simple⟩) ≠ [] := by
  obtain ⟨c, hc, rfl⟩ := List.mem_map.mp (List.mem_eraseDups.mp h)
  obtain ⟨hc, hpackage⟩ := List.mem_filter.mp hc
  refine List.ne_nil_of_mem (List.mem_filter.mpr ⟨hc, decide_eq_true ?_⟩)
  rw [← of_decide_eq_true hpackage]

/-- A package has a class. -/
theorem classNames_ne_nil {cs : List Case} {package : String} (h : package ∈ packageNames cs) :
    classNames cs package ≠ [] := by
  obtain ⟨c, hc, rfl⟩ := List.mem_map.mp (List.mem_eraseDups.mp h)
  refine List.ne_nil_of_mem (a := c.owner.simple) (List.mem_eraseDups.mpr ?_)
  exact List.mem_map.mpr ⟨c, List.mem_filter.mpr ⟨hc, decide_eq_true rfl⟩, rfl⟩

theorem inPackage_ne_nil {cs : List Case} {package : String} (h : package ∈ packageNames cs) :
    inPackage cs package ≠ [] := by
  obtain ⟨simple, hsimple⟩ := List.exists_mem_of_ne_nil _ (classNames_ne_nil h)
  obtain ⟨c, hc⟩ := List.exists_mem_of_ne_nil _ (filter_owner_ne_nil hsimple)
  exact List.ne_nil_of_mem (List.mem_flatMap.mpr ⟨simple, hsimple, hc⟩)

/-- The part of a package is taken out of the tree as a whole. -/
theorem filter_package_cases (name : String) (cs : List Case) (package : String) :
    ((Tree.ofCases name cs).cases.filter fun c => c.owner.package = package)
      = inPackage cs package := by
  rw [cases_ofCases, filter_flatMap_blocks (nodup_packageNames cs)
    fun package _ c hc => owner_of_mem_inPackage hc]
  split
  · rfl
  · rename_i h
    rw [inPackage, classNames_eq_nil h]
    rfl

/-- So is that of a class. -/
theorem filter_owner_cases (name : String) (cs : List Case) (n : ClassName) :
    ((Tree.ofCases name cs).cases.filter fun c => c.owner = n)
      = cs.filter fun c => c.owner = n := by
  have hclass : ∀ n ∈ owners cs, ∀ c ∈ (cs.filter fun c => c.owner = n), c.owner = n :=
    fun n _ c hc => of_decide_eq_true (List.mem_filter.mp hc).2
  have hcases : (Tree.ofCases name cs).cases
      = (owners cs).flatMap fun n => cs.filter fun c => c.owner = n := by
    rw [Tree.cases, classes_ofCases, List.flatMap_map]
    rfl
  rw [hcases, filter_flatMap_blocks (nodup_owners cs) hclass]
  split
  · rfl
  · rename_i h
    exact (List.filter_eq_nil_iff.mpr fun c hc heq =>
      h (mem_owners.mpr ⟨c, hc, of_decide_eq_true heq⟩)).symm

/-- **Taking the cases out of a tree keeps their groups.** -/
theorem sameGroups_cases (name : String) (cs : List Case) :
    SameGroups (Tree.ofCases name cs).cases cs where
  packages := by
    rw [packageNames, cases_ofCases]
    exact eraseDups_map_flatMap_blocks (nodup_packageNames cs)
      (fun package _ c hc => owner_of_mem_inPackage hc) fun package h => inPackage_ne_nil h
  classes package := by
    rw [classNames, filter_package_cases]
    refine eraseDups_map_flatMap_blocks (nodup_classNames cs package) (fun simple _ c hc => ?_)
      fun simple h => filter_owner_ne_nil h
    exact congrArg ClassName.simple (of_decide_eq_true (List.mem_filter.mp hc).2)
  cases n := filter_owner_cases name cs n

/-! ## 3. Merging

A merged tree is made from the cases of its parts, in their order.  By the groups, these may be
replaced by the cases that the parts were made from.
-/

/-- The tree of some cases with a name. -/
abbrev treeOf (part : String × List Case) : Tree := .ofCases part.1 part.2

theorem sameGroups_flatMap_cases (parts : List (String × List Case)) :
    SameGroups ((parts.map treeOf).flatMap Tree.cases) (parts.flatMap Prod.snd) := by
  induction parts with
  | nil => exact .refl []
  | cons part parts ih => exact (sameGroups_cases part.1 part.2).append ih

/-- **Merging trees is putting their cases one behind the other.** -/
theorem merge_map_treeOf (name : String) (parts : List (String × List Case)) :
    Tree.merge name (parts.map treeOf) = .ofCases name (parts.flatMap Prod.snd) :=
  (sameGroups_flatMap_cases parts).ofCases_eq name

/-- Merging in steps is merging at once. -/
theorem merge_pair (name name₁ name₂ : String) (xs ys : List Case) :
    Tree.merge name [.ofCases name₁ xs, .ofCases name₂ ys] = .ofCases name (xs ++ ys) := by
  have h := merge_map_treeOf name [(name₁, xs), (name₂, ys)]
  rwa [List.flatMap_cons, List.flatMap_singleton] at h

/-- A tree is made anew from its own cases. -/
theorem ofCases_cases (name name' : String) (cs : List Case) :
    Tree.ofCases name (Tree.ofCases name' cs).cases = .ofCases name cs :=
  (sameGroups_cases name' cs).ofCases_eq name

/-! ## 4. What stands in a tree

The same facts once more without the lists of names: for each package and each class that is in the
tree.
-/

/-- The tree groups the cases: no package and no class stands in it twice, none is empty, and each
class has its cases in the order given. -/
structure Tree.Groups (t : Tree) (cs : List Case) : Prop where
  nodup_packages : (t.packages.map PackageResult.name).Nodup
  nodup_classes : ∀ p ∈ t.packages, (p.classes.map fun r => r.className.simple).Nodup
  package_eq : ∀ p ∈ t.packages, ∀ r ∈ p.classes, r.className.package = p.name
  classes_ne_nil : ∀ p ∈ t.packages, p.classes ≠ []
  cases_ne_nil : ∀ r ∈ t.classes, r.cases ≠ []
  cases_eq : ∀ r ∈ t.classes, r.cases = cs.filter fun c => plainName c.className = r.className.full
  exists_class : ∀ c ∈ cs, ∃ r ∈ t.classes, c ∈ r.cases
  totalCount_eq : t.totalCount = cs.length

/-- The cases with the full name of a class are those of the class. -/
theorem plainName_eq_full_iff {c c' : Case} :
    plainName c.className = c'.owner.full ↔ c.owner = c'.owner := by
  rw [← ClassName.full_ofString]
  constructor
  · exact ClassName.full_inj (ClassName.dot_notMem_simple _) (ClassName.dot_notMem_simple _)
  · exact congrArg ClassName.full

theorem mem_packages_ofCases {name : String} {cs : List Case} {p : PackageResult} :
    p ∈ (Tree.ofCases name cs).packages
      ↔ ∃ package ∈ packageNames cs, p = ⟨package, classesOf cs package⟩ := by
  rw [ofCases_eq, packagesOf, List.mem_map]
  exact exists_congr fun package => and_congr_right fun _ => eq_comm

theorem mem_classes_ofCases {name : String} {cs : List Case} {r : ClassResult} :
    r ∈ (Tree.ofCases name cs).classes ↔ ∃ c ∈ cs, r = classOf cs c.owner := by
  rw [classes_ofCases, List.mem_map]
  constructor
  · rintro ⟨n, hn, rfl⟩
    obtain ⟨c, hc, rfl⟩ := mem_owners.mp hn
    exact ⟨c, hc, rfl⟩
  · rintro ⟨c, hc, rfl⟩
    exact ⟨c.owner, mem_owners.mpr ⟨c, hc, rfl⟩, rfl⟩

/-- **A tree of cases groups them.** -/
theorem groups_ofCases (name : String) (cs : List Case) : (Tree.ofCases name cs).Groups cs where
  nodup_packages := by
    have hnames : (Tree.ofCases name cs).packages.map PackageResult.name = packageNames cs := by
      rw [ofCases_eq, packagesOf, List.map_map]
      exact List.map_id _
    rw [hnames]
    exact nodup_packageNames cs
  nodup_classes p hp := by
    obtain ⟨package, -, rfl⟩ := mem_packages_ofCases.mp hp
    have hnames : (classesOf cs package).map (fun r => r.className.simple)
        = classNames cs package := by
      rw [classesOf, List.map_map]
      exact List.map_id _
    rw [hnames]
    exact nodup_classNames cs package
  package_eq p hp r hr := by
    obtain ⟨package, -, rfl⟩ := mem_packages_ofCases.mp hp
    obtain ⟨simple, -, rfl⟩ := List.mem_map.mp hr
    rfl
  classes_ne_nil p hp := by
    obtain ⟨package, hpackage, rfl⟩ := mem_packages_ofCases.mp hp
    exact fun hnil => classNames_ne_nil hpackage (List.map_eq_nil_iff.mp hnil)
  cases_ne_nil r hr := by
    obtain ⟨c, hc, rfl⟩ := mem_classes_ofCases.mp hr
    exact List.ne_nil_of_mem (List.mem_filter.mpr ⟨hc, decide_eq_true rfl⟩)
  cases_eq r hr := by
    obtain ⟨c, -, rfl⟩ := mem_classes_ofCases.mp hr
    exact List.filter_congr fun c' _ => decide_eq_decide.mpr plainName_eq_full_iff.symm
  exists_class c hc :=
    ⟨classOf cs c.owner, mem_classes_ofCases.mpr ⟨c, hc, rfl⟩,
      List.mem_filter.mpr ⟨hc, decide_eq_true rfl⟩⟩
  totalCount_eq := (cases_ofCases_perm name cs).length_eq

end TestLanes.Report
