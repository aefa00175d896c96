import Mathlib.Data.List.Nodup
import TestLanes.Report.Tree
import TestLanes.Proofs.Buckets

/-!
# What a tree of cases holds

A tree is made by adding one case after the other.  The result is described without steps:
the packages in the order in which they are first seen, in each the classes in the order in which
they are first seen, and in each class its cases in the order given (`ofCases_eq`).  So a tree
has one class for each class name of its cases (`classes_ofCases`, `nodup_owners`, `mem_owners`) and
the cases that it was made from (`cases_ofCases_perm`).
-/

namespace TestLanes.Report

/-! ## 1. The description

Packages and classes stand in the order in which their names are first seen, which is what
`eraseDups` leaves of a list.  A class is told by its two names and by the cases that it is made
from.
-/

/-- The class of a case. -/
def Case.owner (c : Case) : ClassName := .ofString c.className

/-- The class with this name, with its cases. -/
def classOf (cs : List Case) (n : ClassName) : ClassResult := ⟨n, cs.filter fun c => c.owner = n⟩

/-- The simple names of the classes of a package, as they are first seen. -/
def classNames (cs : List Case) (package : String) : List String :=
  ((cs.filter fun c => c.owner.package = package).map fun c => c.owner.simple).eraseDups

/-- The names of the packages, as they are first seen. -/
def packageNames (cs : List Case) : List String := (cs.map fun c => c.owner.package).eraseDups

theorem nodup_classNames (cs : List Case) (package : String) : (classNames cs package).Nodup :=
  nodup_eraseDups _

theorem nodup_packageNames (cs : List Case) : (packageNames cs).Nodup := nodup_eraseDups _

/-- A package without cases has no classes. -/
theorem classNames_eq_nil {cs : List Case} {package : String} (h : package ∉ packageNames cs) :
    classNames cs package = [] := by
  have hnone : (cs.filter fun c => c.owner.package = package) = [] :=
    List.filter_eq_nil_iff.mpr fun c hc heq =>
      h (List.mem_eraseDups.mpr (List.mem_map.mpr ⟨c, hc, of_decide_eq_true heq⟩))
  rw [classNames, hnone]
  rfl

/-- The classes of a package. -/
def classesOf (cs : List Case) (package : String) : List ClassResult :=
  (classNames cs package).map fun simple => classOf cs ⟨package, simple⟩

/-- The packages with their classes. -/
def packagesOf (cs : List Case) : List PackageResult :=
  (packageNames cs).map fun package => ⟨package, classesOf cs package⟩

/-! ## 2. Adding a case

Adding goes down through the packages to the classes of one of them, and on each level either
changes the place with the name or appends a new one.  Both levels are described alike: over
distinct names, with the content of each place a function of its name.  Then the description of the
cases with one more is compared level by level, and the tree follows by induction from the end of
the cases.
-/

theorem addToClasses_map {n : ClassName} {c : Case} {names : List String} (hnodup : names.Nodup)
    (results : String → List Case) (hnew : n.simple ∉ names → results n.simple = []) :
    addToClasses n c (names.map fun s => ⟨⟨n.package, s⟩, results s⟩)
      = (if n.simple ∈ names then names else names ++ [n.simple]).map fun s =>
          ⟨⟨n.package, s⟩, results s ++ if s = n.simple then [c] else []⟩ := by
  induction names with
  | nil => simp [addToClasses, hnew List.not_mem_nil]
  | cons s names ih =>
    obtain ⟨hs, hnodup⟩ := List.nodup_cons.mp hnodup
    rw [List.map_cons, addToClasses]
    by_cases heq : s = n.simple
    · subst heq
      have hrest : ∀ s' ∈ names, s' ≠ n.simple := fun s' hs' h => hs (h ▸ hs')
      rw [if_pos rfl, if_pos List.mem_cons_self, List.map_cons, if_pos rfl]
      congr 1
      refine List.map_congr_left fun s' hs' => ?_
      rw [if_neg (hrest s' hs'), List.append_nil]
    · have hmem : n.simple ∈ s :: names ↔ n.simple ∈ names := by
        rw [List.mem_cons]
        exact or_iff_right fun h => heq h.symm
      rw [if_neg heq, ih hnodup fun h => hnew (hmem.not.mpr h)]
      by_cases hin : n.simple ∈ names
      · rw [if_pos hin, if_pos (hmem.mpr hin), List.map_cons, if_neg heq, List.append_nil]
      · rw [if_neg hin, if_neg (hmem.not.mpr hin), List.cons_append, List.map_cons, if_neg heq,
          List.append_nil]

theorem addToPackages_map {n : ClassName} {c : Case} {names : List String} (hnodup : names.Nodup)
    (results : String → List ClassResult) (hnew : n.package ∉ names → results n.package = []) :
    addToPackages n c (names.map fun p => ⟨p, results p⟩)
      = (if n.package ∈ names then names else names ++ [n.package]).map fun p =>
          ⟨p, if p = n.package then addToClasses n c (results p) else results p⟩ := by
  induction names with
  | nil => simp [addToPackages, addToClasses, hnew List.not_mem_nil]
  | cons p names ih =>
    obtain ⟨hp, hnodup⟩ := List.nodup_cons.mp hnodup
    rw [List.map_cons, addToPackages]
    by_cases heq : p = n.package
    · subst heq
      have hrest : ∀ p' ∈ names, p' ≠ n.package := fun p' hp' h => hp (h ▸ hp')
      rw [if_pos rfl, if_pos List.mem_cons_self, List.map_cons, if_pos rfl]
      congr 1
      refine List.map_congr_left fun p' hp' => ?_
      rw [if_neg (hrest p' hp')]
    · have hmem : n.package ∈ p :: names ↔ n.package ∈ names := by
        rw [List.mem_cons]
        exact or_iff_right fun h => heq h.symm
      rw [if_neg heq, ih hnodup fun h => hnew (hmem.not.mpr h)]
      by_cases hin : n.package ∈ names
      · rw [if_pos hin, if_pos (hmem.mpr hin), List.map_cons, if_neg heq]
      · rw [if_neg hin, if_neg (hmem.not.mpr hin), List.cons_append, List.map_cons, if_neg heq]

/-- The class of the new case gets it as its last one, and the others stay as they are. -/
theorem classOf_append_singleton (cs : List Case) (c : Case) (n : ClassName) :
    classOf (cs ++ [c]) n
      = ⟨n, (cs.filter fun c => c.owner = n) ++ if n = c.owner then [c] else []⟩ := by
  rw [classOf, List.filter_append]
  by_cases h : c.owner = n
  · subst h
    simp
  · rw [if_neg fun heq => h heq.symm]
    simp [h]

/-- A class that is not among the names has no case. -/
theorem filter_owner_eq_nil {cs : List Case} {n : ClassName}
    (h : n.simple ∉ classNames cs n.package) : (cs.filter fun c => c.owner = n) = [] := by
  refine List.filter_eq_nil_iff.mpr fun c hc heq => h ?_
  have howner : c.owner = n := of_decide_eq_true heq
  refine List.mem_eraseDups.mpr (List.mem_map.mpr ⟨c, ?_, congrArg ClassName.simple howner⟩)
  exact List.mem_filter.mpr ⟨hc, decide_eq_true (congrArg ClassName.package howner)⟩

/-- **The package of the new case** has it added to its classes. -/
theorem classesOf_append_singleton (cs : List Case) (c : Case) :
    classesOf (cs ++ [c]) c.owner.package
      = addToClasses c.owner c (classesOf cs c.owner.package) := by
  have hnames : classNames (cs ++ [c]) c.owner.package
      = if c.owner.simple ∈ classNames cs c.owner.package then classNames cs c.owner.package
        else classNames cs c.owner.package ++ [c.owner.simple] := by
    have hlast : [c].filter (fun d => d.owner.package = c.owner.package) = [c] := by simp
    rw [classNames, List.filter_append, hlast, List.map_append]
    exact eraseDups_append_singleton _ _
  have hadd := addToClasses_map (n := c.owner) (c := c) (nodup_classNames cs c.owner.package)
    (fun s => cs.filter fun d => d.owner = ⟨c.owner.package, s⟩) filter_owner_eq_nil
  refine Eq.trans ?_ hadd.symm
  rw [classesOf, hnames]
  refine List.map_congr_left fun s _ => ?_
  rw [classOf_append_singleton]
  by_cases hs : s = c.owner.simple
  · subst hs
    rw [if_pos (show ClassName.mk c.owner.package c.owner.simple = c.owner from rfl), if_pos rfl]
  · rw [if_neg hs, if_neg fun h => hs (congrArg ClassName.simple h)]

/-- The other packages stay as they are. -/
theorem classesOf_append_singleton_of_ne (cs : List Case) {c : Case} {package : String}
    (h : package ≠ c.owner.package) :
    classesOf (cs ++ [c]) package = classesOf cs package := by
  have hnames : classNames (cs ++ [c]) package = classNames cs package := by
    have hlast : [c].filter (fun d => d.owner.package = package) = [] := by simp [Ne.symm h]
    rw [classNames, List.filter_append, hlast, List.append_nil]
    rfl
  rw [classesOf, hnames]
  refine List.map_congr_left fun s _ => ?_
  rw [classOf_append_singleton, if_neg fun heq => h (congrArg ClassName.package heq),
    List.append_nil]
  rfl

/-- **One case more.** -/
theorem packagesOf_append_singleton (cs : List Case) (c : Case) :
    packagesOf (cs ++ [c]) = addToPackages c.owner c (packagesOf cs) := by
  have hnames : packageNames (cs ++ [c])
      = if c.owner.package ∈ packageNames cs then packageNames cs
        else packageNames cs ++ [c.owner.package] := by
    rw [packageNames, List.map_append]
    exact eraseDups_append_singleton _ _
  have hnew : c.owner.package ∉ packageNames cs → classesOf cs c.owner.package = [] := by
    intro h
    rw [classesOf, classNames_eq_nil h]
    rfl
  rw [packagesOf, packagesOf, addToPackages_map (nodup_packageNames cs) (classesOf cs) hnew, hnames]
  refine List.map_congr_left fun p _ => ?_
  by_cases hp : p = c.owner.package
  · subst hp
    rw [if_pos rfl, classesOf_append_singleton]
  · rw [if_neg hp, classesOf_append_singleton_of_ne cs hp]

/-- **A tree is what it is described to be.** -/
theorem ofCases_eq (name : String) (cs : List Case) :
    Tree.ofCases name cs = ⟨name, packagesOf cs⟩ := by
  rw [Tree.ofCases]
  congr 1
  induction cs using List.reverseRecOn with
  | nil => rfl
  | append_singleton cs c ih =>
    rw [List.foldl_append, ih, packagesOf_append_singleton]
    rfl

/-! ## 3. Classes and cases

What the description says, in the form in which it is used elsewhere: by class names in two parts.
-/

/-- The names of all classes in the order of the tree. -/
def owners (cs : List Case) : List ClassName :=
  (packageNames cs).flatMap fun package => (classNames cs package).map (ClassName.mk package)

/-- The tree has one class for each of these names. -/
theorem classes_ofCases (name : String) (cs : List Case) :
    (Tree.ofCases name cs).classes = (owners cs).map (classOf cs) := by
  rw [ofCases_eq, Tree.classes, packagesOf, owners, List.flatMap_map, List.map_flatMap]
  refine congrArg (packageNames cs).flatMap (funext fun package => ?_)
  rw [List.map_map]
  rfl

/-- **The class names of a tree are distinct.** -/
theorem nodup_owners (cs : List Case) : (owners cs).Nodup := by
  refine List.nodup_flatMap.mpr ⟨fun package _ => ?_, ?_⟩
  · exact (nodup_classNames cs package).map fun s s' h => congrArg ClassName.simple h
  · refine (nodup_packageNames cs).imp fun {p p'} hne n hn hn' => hne ?_
    obtain ⟨s, -, rfl⟩ := List.mem_map.mp hn
    obtain ⟨s', -, h⟩ := List.mem_map.mp hn'
    exact (congrArg ClassName.package h).symm

/-- **They are the class names of the cases.** -/
theorem mem_owners {cs : List Case} {n : ClassName} : n ∈ owners cs ↔ ∃ c ∈ cs, c.owner = n := by
  simp only [owners, List.mem_flatMap, List.mem_map]
  constructor
  · rintro ⟨package, -, s, hs, rfl⟩
    obtain ⟨c, hc, hsimple⟩ := List.mem_map.mp (List.mem_eraseDups.mp hs)
    obtain ⟨hc, hpackage⟩ := List.mem_filter.mp hc
    refine ⟨c, hc, ?_⟩
    rw [← hsimple, ← of_decide_eq_true hpackage]
  · rintro ⟨c, hc, rfl⟩
    refine ⟨c.owner.package, List.mem_eraseDups.mpr (List.mem_map.mpr ⟨c, hc, rfl⟩),
      c.owner.simple, List.mem_eraseDups.mpr (List.mem_map.mpr ⟨c, ?_, rfl⟩), rfl⟩
    exact List.mem_filter.mpr ⟨hc, decide_eq_true rfl⟩

/-- **A tree has the cases that it was made from**, class by class. -/
theorem cases_ofCases_perm (name : String) (cs : List Case) :
    (Tree.ofCases name cs).cases.Perm cs := by
  rw [Tree.cases, classes_ofCases, List.flatMap_map]
  exact flatMap_filter_perm_self (nodup_owners cs) fun c hc => mem_owners.mpr ⟨c, hc, rfl⟩

end TestLanes.Report
