import TestLanes.Report.ClassName
import TestLanes.Text.Blank

/-!
# Class names in two parts

A simple name has no dot in it (`dot_notMem_simple`), so cutting at the last dot undoes joining with
one (`cutAtLastDot_append`), and the full name of a class tells both of its parts (`full_inj`).

The full name is the name that was split, but for a mark that the class has no package, which is
left out (`full_ofString`).
-/

namespace TestLanes.Report

open Text (dropPrefix? dropPrefix?_eq_some_iff)

/-! ## 1. The last dot

The cut is found from the end, by a recursion to the end of the name: a name is cut where its rest
is, or else at its first character, if this is a dot.  The lemmas follow this recursion and say
together that the two parts are the only ones with a dot between them and none in the second.
-/

/-- Only where there is no dot there is nothing to cut. -/
theorem cutAtLastDot_eq_none_iff {cs : List Char} : cutAtLastDot cs = none ↔ '.' ∉ cs := by
  induction cs with
  | nil => simp [cutAtLastDot]
  | cons c cs ih =>
    rw [cutAtLastDot]
    cases hcut : cutAtLastDot cs with
    | some parts =>
      have hdot : '.' ∈ cs := by
        refine Decidable.byContradiction fun h => ?_
        rw [ih.mpr h] at hcut
        exact absurd hcut (by simp)
      simp [hdot]
    | none =>
      have hdot : '.' ∉ cs := ih.mp hcut
      by_cases hc : c = '.'
      · simp [hc]
      · simp [hc, hdot, Ne.symm hc]

/-- What follows the last dot has none. -/
theorem dot_notMem_of_cutAtLastDot {cs front name : List Char}
    (h : cutAtLastDot cs = some (front, name)) : '.' ∉ name := by
  induction cs generalizing front with
  | nil => exact absurd h (by simp [cutAtLastDot])
  | cons c cs ih =>
    rw [cutAtLastDot] at h
    cases hcut : cutAtLastDot cs with
    | some parts =>
      rw [hcut] at h
      obtain ⟨-, rfl⟩ := Prod.mk.inj (Option.some.inj h)
      exact ih hcut
    | none =>
      rw [hcut] at h
      by_cases hc : c = '.'
      · obtain ⟨-, rfl⟩ := Prod.mk.inj (Option.some.inj ((if_pos hc).symm.trans h))
        exact cutAtLastDot_eq_none_iff.mp hcut
      · exact absurd ((if_neg hc).symm.trans h) (by simp)

/-- Nothing but the dot is lost. -/
theorem eq_append_of_cutAtLastDot {cs front name : List Char}
    (h : cutAtLastDot cs = some (front, name)) : cs = front ++ '.' :: name := by
  induction cs generalizing front with
  | nil => exact absurd h (by simp [cutAtLastDot])
  | cons c cs ih =>
    rw [cutAtLastDot] at h
    cases hcut : cutAtLastDot cs with
    | some parts =>
      rw [hcut] at h
      obtain ⟨rfl, rfl⟩ := Prod.mk.inj (Option.some.inj h)
      rw [ih hcut, List.cons_append]
    | none =>
      rw [hcut] at h
      by_cases hc : c = '.'
      · obtain ⟨rfl, rfl⟩ := Prod.mk.inj (Option.some.inj ((if_pos hc).symm.trans h))
        rw [hc, List.nil_append]
      · exact absurd ((if_neg hc).symm.trans h) (by simp)

/-- A name without a dot is what follows the last one. -/
theorem cutAtLastDot_append (front : List Char) {name : List Char} (h : '.' ∉ name) :
    cutAtLastDot (front ++ '.' :: name) = some (front, name) := by
  induction front with
  | nil =>
    rw [List.nil_append, cutAtLastDot, cutAtLastDot_eq_none_iff.mpr h]
    rfl
  | cons c front ih => rw [List.cons_append, cutAtLastDot, ih]

/-! ## 2. Full names

A full name is the simple name alone, or both parts with a dot between them.  With no dot in a
simple name the two forms do not meet, and the second one can be cut again.
-/

namespace ClassName

/-- **A simple name has no dot.** -/
theorem dot_notMem_simple (s : String) : '.' ∉ (ofString s).simple.toList := by
  rw [ofString]
  cases hcut : cutAtLastDot s.toList with
  | none => exact cutAtLastDot_eq_none_iff.mp hcut
  | some parts =>
    obtain ⟨front, name⟩ := parts
    have hdot := dot_notMem_of_cutAtLastDot hcut
    cases front with
    | nil => simpa using hdot
    | cons c front => simpa using hdot

/-- The characters of a full name with a package in it. -/
theorem toList_full {n : ClassName} (h : n.package ≠ rootPackage) :
    n.full.toList = n.package.toList ++ '.' :: n.simple.toList := by
  rw [full, if_neg h]
  simp

/-- **The full name tells the two parts**, if the simple names have no dot. -/
theorem full_inj {n m : ClassName} (hn : '.' ∉ n.simple.toList) (hm : '.' ∉ m.simple.toList)
    (h : n.full = m.full) : n = m := by
  have hparts : n.package = m.package ∧ n.simple = m.simple := by
    by_cases hnroot : n.package = rootPackage <;> by_cases hmroot : m.package = rootPackage
    · rw [full, full, if_pos hnroot, if_pos hmroot] at h
      exact ⟨hnroot.trans hmroot.symm, h⟩
    · -- a name without a package has no dot
      rw [full.eq_def n, if_pos hnroot] at h
      rw [h, toList_full hmroot] at hn
      exact absurd (List.mem_append_right _ List.mem_cons_self) hn
    · rw [full.eq_def m, if_pos hmroot] at h
      rw [← h, toList_full hnroot] at hm
      exact absurd (List.mem_append_right _ List.mem_cons_self) hm
    · have hcut := congrArg (fun s => cutAtLastDot s.toList) h
      simp only [toList_full hnroot, toList_full hmroot, cutAtLastDot_append _ hn,
        cutAtLastDot_append _ hm, Option.some.injEq, Prod.mk.injEq] at hcut
      exact ⟨String.toList_inj.mp hcut.1, String.toList_inj.mp hcut.2⟩
  cases n
  cases m
  obtain ⟨rfl, rfl⟩ := hparts
  rfl

end ClassName

/-! ## 3. Names without a package

There are two marks: a dot in front of a simple name, which cuts it into nothing and the name, and
the name of the root package in front of it.  `plainName` takes either mark away.  Any other name is
put together as it was.
-/

/-- The name behind a mark that there is no package: a dot in front, or the root package by name. -/
def unpackaged? (cs : List Char) : Option (List Char) :=
  ((dropPrefix? ['.'] cs).or (dropPrefix? (rootPackage.toList ++ ['.']) cs)).filter ('.' ∉ ·)

/-- A class name without such a mark. -/
def plainName (s : String) : String := ((unpackaged? s.toList).map String.ofList).getD s

theorem unpackaged?_eq_some {cs name : List Char} (h : unpackaged? cs = some name) :
    '.' ∉ name ∧ (cs = '.' :: name ∨ cs = rootPackage.toList ++ '.' :: name) := by
  obtain ⟨hor, hdot⟩ := Option.filter_eq_some_iff.mp h
  refine ⟨of_decide_eq_true hdot, ?_⟩
  rcases Option.or_eq_some_iff.mp hor with hcs | ⟨-, hcs⟩
  · exact .inl (dropPrefix?_eq_some_iff.mp hcs)
  · exact .inr ((dropPrefix?_eq_some_iff.mp hcs).trans (List.append_assoc _ _ _))

theorem unpackaged?_dot {name : List Char} (h : '.' ∉ name) :
    unpackaged? ('.' :: name) = some name := by
  have hdrop : dropPrefix? ['.'] ('.' :: name) = some name := dropPrefix?_eq_some_iff.mpr rfl
  rw [unpackaged?, hdrop, Option.some_or, Option.filter_some, if_pos (decide_eq_true h)]

theorem unpackaged?_root {name : List Char} (h : '.' ∉ name) :
    unpackaged? (rootPackage.toList ++ '.' :: name) = some name := by
  have hfirst : dropPrefix? ['.'] (rootPackage.toList ++ '.' :: name) = none := rfl
  have hdrop : dropPrefix? (rootPackage.toList ++ ['.']) (rootPackage.toList ++ '.' :: name)
      = some name := dropPrefix?_eq_some_iff.mpr (by rw [List.append_assoc, List.singleton_append])
  rw [unpackaged?, hfirst, hdrop, Option.none_or, Option.filter_some, if_pos (decide_eq_true h)]

/-- **The full name of a class is its plain name.** -/
theorem ClassName.full_ofString (s : String) : (ofString s).full = plainName s := by
  unfold plainName ofString
  cases hcut : cutAtLastDot s.toList with
  | none =>
    have hdot := cutAtLastDot_eq_none_iff.mp hcut
    have hnone : unpackaged? s.toList = none := by
      refine Option.eq_none_iff_forall_ne_some.mpr fun name hname => hdot ?_
      obtain ⟨-, hs | hs⟩ := unpackaged?_eq_some hname <;> simp [hs]
    rw [hnone]
    rfl
  | some parts =>
    obtain ⟨front, name⟩ := parts
    have hname := dot_notMem_of_cutAtLastDot hcut
    have hs := eq_append_of_cutAtLastDot hcut
    cases front with
    | nil =>
      rw [hs, List.nil_append, unpackaged?_dot hname]
      rfl
    | cons c front =>
      by_cases hroot : String.ofList (c :: front) = rootPackage
      · have hfront : c :: front = rootPackage.toList := by rw [← hroot, String.toList_ofList]
        have hbare : unpackaged? s.toList = some name := by
          rw [hs, hfront]
          exact unpackaged?_root hname
        rw [hbare]
        exact if_pos hroot
      · -- a name behind a mark has no dot, so the name is cut where the mark ends
        have hnone : unpackaged? s.toList = none := by
          refine Option.eq_none_iff_forall_ne_some.mpr fun bare hbare => ?_
          obtain ⟨hdot, hs' | hs'⟩ := unpackaged?_eq_some hbare
          · rw [hs, List.cons_append] at hs'
            exact hdot ((List.cons.inj hs').2 ▸ List.mem_append_right _ List.mem_cons_self)
          · have hsame := cutAtLastDot_append rootPackage.toList hdot
            rw [← hs', hcut] at hsame
            refine hroot ?_
            rw [(Prod.mk.inj (Option.some.inj hsame)).1, String.ofList_toList]
        rw [hnone]
        refine String.toList_inj.mp ?_
        rw [toList_full hroot, String.toList_ofList, String.toList_ofList, ← hs]
        rfl

end TestLanes.Report
