import Mathlib.Data.List.Forall2
import TestLanes.Entity.Basic

/-!
# Patterns of entities

A class is selected by its path, and a path is made of a key by turning its dots into slashes.  So
two classes have the same patterns exactly if their keys differ in nothing but dots and slashes
(`SamePath`, `classPath_eq_iff`).  Two entities of one kind either have the same patterns or share
none (`elements_eq_of_mem`).
-/

namespace TestLanes

namespace Entity

/-! ## 1. Paths of classes

Turning dots into slashes forgets which of the two stood at a place, and nothing else.  Keys that
have none of one sort are told apart by their paths: no place is then in doubt.
-/

/-- The keys are the same but for dots and slashes. -/
def SamePath (k l : String) : Prop :=
  List.Forall₂ (fun c d => c = d ∨ c ∈ ['.', '/'] ∧ d ∈ ['.', '/']) k.toList l.toList

/-- **Classes have the same path** if their keys are the same but for dots and slashes. -/
theorem classPath_eq_iff {k l : String} : classPath k = classPath l ↔ SamePath k l := by
  rw [classPath, classPath, String.ofList_inj, ← List.forall₂_eq_eq_eq,
    List.forall₂_map_left_iff, List.forall₂_map_right_iff, SamePath]
  have hchar : ∀ c d : Char, ((if c = '.' then '/' else c) = if d = '.' then '/' else d) ↔
      (c = d ∨ c ∈ ['.', '/'] ∧ d ∈ ['.', '/']) := by
    intro c d
    simp only [List.mem_cons, List.not_mem_nil, or_false]
    split_ifs <;> grind
  simp only [hchar]

theorem classPath_eq_self_iff {k : String} : classPath k = k ↔ '.' ∉ k.toList := by
  have hlist : classPath k = k ↔
      k.toList.map (fun c => if c = '.' then '/' else c) = k.toList.map id := by
    rw [← String.toList_inj, classPath, String.toList_ofList, List.map_id]
  rw [hlist, List.map_inj_left]
  constructor
  · exact fun h hdot => absurd (h '.' hdot) (by decide)
  · exact fun h c hc => if_neg fun (heq : c = '.') => h (heq ▸ hc)

theorem length_classPath (k : String) : (classPath k).toList.length = k.toList.length := by
  rw [classPath, String.toList_ofList, List.length_map]

/-- Keys without dots are told apart by their paths, and so are keys without slashes. -/
theorem SamePath.eq {k l : String} (h : SamePath k l) {separator : Char}
    (hseparator : separator ∈ ['.', '/']) (hk : separator ∉ k.toList)
    (hl : separator ∉ l.toList) : k = l := by
  rw [← String.toList_inj]
  unfold SamePath at h
  revert h hk hl
  generalize k.toList = ks
  generalize l.toList = ls
  intro h hk hl
  induction h with
  | nil => rfl
  | @cons c d ks ls hcd _ ih =>
    obtain ⟨hc, hk⟩ := List.ne_and_not_mem_of_not_mem_cons hk
    obtain ⟨hd, hl⟩ := List.ne_and_not_mem_of_not_mem_cons hl
    have heq : c = d := by
      rcases hcd with hcd | ⟨hc', hd'⟩
      · exact hcd
      · simp only [List.mem_cons, List.not_mem_nil, or_false] at hseparator hc' hd'
        grind
    rw [heq, ih hk hl]

/-! ## 2. Shared patterns

A class has two patterns with endings that differ, so a pattern tells which of the two it is, and
with it the path.
-/

variable {a b : Entity} {x : String}

theorem elements_of_testClass (h : a.kind = .testClass) :
    a.elements = [classPath a.key ++ ".java", classPath a.key ++ ".class"] := by
  rw [elements, h]

theorem elements_of_testCase (h : a.kind = .testCase) : a.elements = [a.key] := by
  rw [elements, h]

theorem java_ne_class (p q : String) : p ++ ".java" ≠ q ++ ".class" := by
  intro h
  have hlast := congrArg (fun s => s.toList.getLast?) h
  simp at hlast

/-- **Entities of one kind have the same patterns if they share one.** -/
theorem elements_eq_of_mem (hkind : a.kind = b.kind) (ha : x ∈ a.elements) (hb : x ∈ b.elements) :
    a.elements = b.elements := by
  cases hb' : b.kind with
  | testCase =>
    rw [elements_of_testCase (hkind.trans hb')] at ha ⊢
    rw [elements_of_testCase hb'] at hb ⊢
    rw [← List.mem_singleton.mp ha, ← List.mem_singleton.mp hb]
  | testClass =>
    rw [elements_of_testClass (hkind.trans hb')] at ha ⊢
    rw [elements_of_testClass hb'] at hb ⊢
    have hpath : classPath a.key = classPath b.key := by
      rcases List.mem_pair.mp ha with rfl | rfl <;> rcases List.mem_pair.mp hb with h | h
      · exact (String.append_left_inj _).mp h
      · exact absurd h (java_ne_class _ _)
      · exact absurd h.symm (java_ne_class _ _)
      · exact (String.append_left_inj _).mp h
    rw [hpath]

/-- **Which entities have the same patterns**: those with the same key, and classes with the same
path. -/
theorem elements_eq_iff (hkind : a.kind = b.kind) : a.elements = b.elements ↔
    a.key = b.key ∨ a.kind = .testClass ∧ SamePath a.key b.key := by
  cases hb : b.kind with
  | testCase =>
    have ha := hkind.trans hb
    rw [elements_of_testCase ha, elements_of_testCase hb, ha]
    simp
  | testClass =>
    have ha := hkind.trans hb
    rw [elements_of_testClass ha, elements_of_testClass hb, ha, ← classPath_eq_iff]
    simp only [List.cons.injEq, String.append_left_inj, and_self, and_true, true_and]
    exact ⟨.inr, fun h => h.elim (congrArg classPath) id⟩

end Entity

end TestLanes
