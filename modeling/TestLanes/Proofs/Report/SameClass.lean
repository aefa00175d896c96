import TestLanes.Proofs.Report.Merging

/-!
# One class, one full name

A class name is taken apart into a package and a simple name, and the full name of its class puts
the parts together.  Parts and full names tell the same names apart (`ClassName.ofString_eq_iff`),
because a simple name has no dot.  On the way a name can only lose a mark in front that there is no
package (`ClassName.IsMarked`): without one it is its own full name (`ClassName.full_eq_self_iff`).

In a tree a class has the parts of the class names of its cases (`className_of_mem_cases`), so a
case goes into the class with its full name, and no class takes the cases of another one.
-/

namespace TestLanes.Report

/-! ## 1. Marks -/

namespace ClassName

/-- **Parts and full names tell the same names apart.** -/
theorem ofString_eq_iff (s t : String) :
    ofString s = ofString t ↔ (ofString s).full = (ofString t).full := by
  constructor
  · exact congrArg full
  · exact full_inj (dot_notMem_simple s) (dot_notMem_simple t)

/-- A simple name behind a mark that there is no package: a dot, or the root package by its name. -/
def IsMarked (s name : String) : Prop :=
  '.' ∉ name.toList ∧ (s = "." ++ name ∨ s = rootPackage ++ "." ++ name)

instance (s name : String) : Decidable (IsMarked s name) :=
  inferInstanceAs (Decidable (_ ∧ _))

theorem isMarked_iff {s name : String} : IsMarked s name ↔ '.' ∉ name.toList ∧
    (s.toList = '.' :: name.toList ∨ s.toList = rootPackage.toList ++ '.' :: name.toList) := by
  have hdot : ("." ++ name).toList = '.' :: name.toList := by simp
  have hroot : (rootPackage ++ "." ++ name).toList = rootPackage.toList ++ '.' :: name.toList := by
    simp
  rw [IsMarked, ← hroot, ← hdot, String.toList_inj, String.toList_inj]

/-- Marks are what is looked for. -/
theorem unpackaged?_eq_some_iff {s name : String} :
    unpackaged? s.toList = some name.toList ↔ IsMarked s name := by
  rw [isMarked_iff]
  constructor
  · exact unpackaged?_eq_some
  · rintro ⟨hname, hs | hs⟩
    · rw [hs]
      exact unpackaged?_dot hname
    · rw [hs]
      exact unpackaged?_root hname

/-- **Behind a mark stands the full name.** -/
theorem full_of_isMarked {s name : String} (h : IsMarked s name) : (ofString s).full = name := by
  rw [full_ofString, plainName, unpackaged?_eq_some_iff.mpr h, Option.map_some, Option.getD_some,
    String.ofList_toList]

/-- What is behind a mark is not the whole name. -/
theorem ne_of_isMarked {s name : String} (h : IsMarked s name) : name ≠ s := by
  rintro rfl
  -- nothing is longer than itself
  obtain ⟨-, h | h⟩ := isMarked_iff.mp h
  · exact absurd (congrArg List.length h) (by simp)
  · have hlength := congrArg List.length h
    rw [List.length_append, List.length_cons] at hlength
    omega

/-- **A name without a mark is a full name**, and no other one is its own. -/
theorem full_eq_self_iff (s : String) : (ofString s).full = s ↔ ∀ name, ¬ IsMarked s name := by
  constructor
  · intro h name hname
    exact ne_of_isMarked hname ((full_of_isMarked hname).symm.trans h)
  · intro h
    rw [full_ofString, plainName]
    cases hs : unpackaged? s.toList with
    | none => rfl
    | some name =>
      refine absurd (unpackaged?_eq_some_iff.mp ?_) (h (String.ofList name))
      rw [hs, String.toList_ofList]

end ClassName

/-! ## 2. Classes of a tree -/

variable {run : String} {cs : List Case} {r : ClassResult} {c : Case}

/-- A class has the parts of the class names of its cases. -/
theorem className_of_mem_cases (hr : r ∈ (Tree.ofCases run cs).classes) (hc : c ∈ r.cases) :
    r.className = .ofString c.className := by
  obtain ⟨d, -, rfl⟩ := mem_classes_ofCases.mp hr
  obtain ⟨-, howner⟩ := List.mem_filter.mp hc
  exact (of_decide_eq_true howner).symm

/-- A class has all cases with its parts. -/
theorem mem_cases_iff (hr : r ∈ (Tree.ofCases run cs).classes) (hc : c ∈ cs) :
    c ∈ r.cases ↔ r.className = .ofString c.className := by
  constructor
  · exact className_of_mem_cases hr
  · intro h
    obtain ⟨d, -, rfl⟩ := mem_classes_ofCases.mp hr
    exact List.mem_filter.mpr ⟨hc, decide_eq_true h.symm⟩

/-! ## 3. Class names and classes -/

/-- **Class names are grouped consistently.**  Two class names have the same parts exactly if the
full names made of their parts are the same.  The full name is the class name itself, unless this is
marked to have no package; then it is the simple name behind the mark.  A class of a tree that has a
case with the first name has the parts of this name, and it has the cases with the second name
exactly if that has the full name of the class. -/
theorem same_class_iff (s t : String) :
    (ClassName.ofString s = .ofString t ↔
      (ClassName.ofString s).full = (ClassName.ofString t).full) ∧
    ((ClassName.ofString s).full = s ↔ ∀ name, ¬ ClassName.IsMarked s name) ∧
    (∀ name, ClassName.IsMarked s name → (ClassName.ofString s).full = name) ∧
    ∀ (run : String) (cs : List Case), ∀ r ∈ (Tree.ofCases run cs).classes, ∀ c ∈ r.cases,
      c.className = s → r.className = .ofString s ∧ ∀ c' ∈ cs, c'.className = t →
        (c' ∈ r.cases ↔ r.className.full = (ClassName.ofString t).full) := by
  refine ⟨ClassName.ofString_eq_iff s t, ClassName.full_eq_self_iff s,
    fun name => ClassName.full_of_isMarked, fun run cs r hr c hc hs => ?_⟩
  have hclass : r.className = .ofString s := hs ▸ className_of_mem_cases hr hc
  refine ⟨hclass, fun c' hc' ht => ?_⟩
  rw [mem_cases_iff hr hc', ht, hclass]
  exact ClassName.ofString_eq_iff s t

/-- Cases of one class under three names, and of another class. -/
def markedCases : List Case :=
  [⟨".FooTest", "first", 0, .passed, []⟩, ⟨"(root).FooTest", "second", 0, .passed, []⟩,
    ⟨"FooTest", "third", 0, .passed, []⟩, ⟨"a..FooTest", "fourth", 0, .passed, []⟩]

theorem same_class_iff_markedCases :
    ClassName.ofString ".FooTest" = .ofString "(root).FooTest" ∧
      (ClassName.ofString ".FooTest").full = "FooTest" ∧
      (ClassName.ofString "a..FooTest").full = "a..FooTest" ∧
      ∃ r ∈ (Tree.ofCases "run" markedCases).classes, r.className = .ofString ".FooTest" ∧
        ⟨"(root).FooTest", "second", 0, .passed, []⟩ ∈ r.cases := by
  obtain ⟨hparts, -, hmarked, hclasses⟩ := same_class_iff ".FooTest" "(root).FooTest"
  obtain ⟨r, hr, hc⟩ : ∃ r ∈ (Tree.ofCases "run" markedCases).classes,
      (⟨".FooTest", "first", 0, .passed, []⟩ : Case) ∈ r.cases := by decide
  obtain ⟨hclass, hcases⟩ := hclasses "run" markedCases r hr _ hc rfl
  have hsame : ClassName.ofString ".FooTest" = .ofString "(root).FooTest" :=
    hparts.mpr (by decide)
  refine ⟨hsame, hmarked "FooTest" (by decide), by decide, r, hr, hclass, ?_⟩
  refine (hcases _ (by decide) rfl).mpr ?_
  rw [hclass, hsame]

end TestLanes.Report
