import TestLanes.History.Memory
import TestLanes.Proofs.Granularity.Extract
import TestLanes.Proofs.History.Walk
import TestLanes.Proofs.Report.Merging

/-!
# Narrowing to a stage

A narrowed tree is made anew from the cases that are left, and these stand in the order of the old
tree: package by package, and class by class in each.  Grouping such a row of cases once more does
not move any of them (`cases_ofCases_filter`), so the cases of a narrowed tree are those of the tree
that ran in the block, in the same order (`cases_forBlock`), and narrowing twice depends neither on
the order of the blocks nor on how often a block is named.

The tree of the cases that ran in the block may well have its packages in another order, since a
package may be first seen in a case outside of it.  Entities do not depend on that order
(`extract_forBlock`).  So what is made of a stage depends on the cases inside of it alone
(`narrow_keeps_stage`).
-/

namespace TestLanes

namespace Report

/-! ## 1. Cases that are taken out of a tree

The cases of a tree are a row of blocks, one for each package, and in each of these one for each
class.  Taking cases out leaves a row of blocks, some of which may be empty.  By the lemma on blocks
in a row (`flatMap_buckets_of_blocks`), used for the packages and then for the classes of each,
sorting it again changes nothing.
-/

theorem filter_inBlock (block : String) (cs : List Case) :
    cs.filter (Case.inBlock block) = cs.filter fun c => block ∈ c.blocks :=
  List.filter_congr fun c _ => by rw [Case.inBlock, List.contains_eq_mem]

section Filtered

variable (name : String) (cs : List Case) (p : Case → Bool)

/-- What is left of a package stands class by class. -/
theorem inPackage_filter_cases (package : String) :
    inPackage ((Tree.ofCases name cs).cases.filter p) package
      = ((Tree.ofCases name cs).cases.filter p).filter fun c => c.owner.package = package := by
  let rest := ((Tree.ofCases name cs).cases.filter p).filter fun c => c.owner.package = package
  have hrow : rest = (classNames cs package).flatMap fun simple =>
      (cs.filter fun c => c.owner = ⟨package, simple⟩).filter p := by
    rw [← List.filter_flatMap]
    show (((Tree.ofCases name cs).cases.filter p).filter fun c => c.owner.package = package) = _
    rw [List.filter_comm, filter_package_cases]
    rfl
  have hclass : ∀ simple ∈ classNames cs package, ∀ c ∈ (cs.filter fun c =>
      c.owner = ⟨package, simple⟩).filter p, c.owner.simple = simple := by
    intro simple _ c hc
    obtain ⟨hc, -⟩ := List.mem_filter.mp hc
    exact congrArg ClassName.simple (of_decide_eq_true (List.mem_filter.mp hc).2)
  have hbucket : ∀ simple, rest.filter (fun c => c.owner.simple = simple)
      = ((Tree.ofCases name cs).cases.filter p).filter fun c => c.owner = ⟨package, simple⟩ := by
    intro simple
    rw [List.filter_filter]
    refine List.filter_congr fun c _ => ?_
    rw [← Bool.decide_and]
    refine decide_eq_decide.mpr ⟨fun ⟨hs, hp⟩ => ?_, fun h => ?_⟩
    · rw [← hs, ← hp]
    · rw [h]
      exact ⟨rfl, rfl⟩
  have hsorted := flatMap_buckets_of_blocks hrow (nodup_classNames cs package) hclass
  simp only [hbucket] at hsorted
  exact hsorted

/-- **Cases that are taken out of a tree are not moved** by making a tree of them. -/
theorem cases_ofCases_filter (name' : String) :
    (Tree.ofCases name' ((Tree.ofCases name cs).cases.filter p)).cases
      = (Tree.ofCases name cs).cases.filter p := by
  have hrow : (Tree.ofCases name cs).cases.filter p
      = (packageNames cs).flatMap fun package => (inPackage cs package).filter p := by
    rw [cases_ofCases, List.filter_flatMap]
  have hpackage : ∀ package ∈ packageNames cs, ∀ c ∈ (inPackage cs package).filter p,
      c.owner.package = package :=
    fun package _ c hc => owner_of_mem_inPackage (List.mem_filter.mp hc).1
  have hsorted := flatMap_buckets_of_blocks hrow (nodup_packageNames cs) hpackage
  rw [cases_ofCases, funext (inPackage_filter_cases name cs p)]
  exact hsorted

end Filtered

/-! ## 2. Narrowed trees

Narrowing once is taking out by a test, and so narrowing twice is taking out by both tests.
-/

section Narrowed

variable (name : String) (cs : List Case) (block : String)

/-- **The cases of a narrowed tree** are those of the tree that ran in the block, in the same
order. -/
theorem cases_forBlock : ((Tree.ofCases name cs).forBlock block).cases
    = (Tree.ofCases name cs).cases.filter fun c => block ∈ c.blocks := by
  rw [Tree.forBlock, cases_ofCases_filter, filter_inBlock]

/-- Narrowing to one block and then to another one leaves the cases that ran in both. -/
theorem forBlock_forBlock (other : String) :
    ((Tree.ofCases name cs).forBlock block).forBlock other
      = .ofCases name ((Tree.ofCases name cs).cases.filter fun c =>
          other ∈ c.blocks ∧ block ∈ c.blocks) := by
  rw [Tree.forBlock, cases_forBlock, filter_inBlock, List.filter_filter]
  simp only [Bool.decide_and]
  rfl

theorem forBlock_idem :
    ((Tree.ofCases name cs).forBlock block).forBlock block = (Tree.ofCases name cs).forBlock block := by
  rw [forBlock_forBlock, Tree.forBlock, filter_inBlock]
  simp only [and_self]
  rfl

theorem forBlock_comm (other : String) :
    ((Tree.ofCases name cs).forBlock block).forBlock other
      = ((Tree.ofCases name cs).forBlock other).forBlock block := by
  rw [forBlock_forBlock, forBlock_forBlock]
  simp only [and_comm]

end Narrowed

end Report

open Report (Case Tree cases_forBlock cases_ofCases_perm filter_inBlock forBlock_comm forBlock_idem)

/-- **The entities of a narrowed tree** are those of the cases that ran in the block. -/
theorem Granularity.extract_forBlock (g : Granularity) (name name' : String) (cs : List Case)
    (block : String) : g.extract ((Tree.ofCases name cs).forBlock block)
      = g.extract (.ofCases name' (cs.filter fun c => block ∈ c.blocks)) := by
  rw [Tree.forBlock, filter_inBlock]
  exact g.extract_perm _ name' ((cases_ofCases_perm name cs).filter _)

namespace History

variable {B : Type}

/-! ## 3. Stages of builds

The block of a stage is the id of the step that the search in the recorded steps finds.
-/

/-- The block of the stage with a label, if the build has recorded one. -/
def Archive.blockOf? (a : Archive B) (b : B) (stage : String) : Option String :=
  ((a.graph b).value.bind fun graph => graph.findLabeled stage).map Pipeline.Node.id

theorem Archive.tree_narrow {a : Archive B} {located : Located B} {stage block : String}
    (h : a.blockOf? located.build stage = some block) :
    (a.narrow located stage).value.tree = located.tree.forBlock block := by
  obtain ⟨node, hnode, rfl⟩ := Option.map_eq_some_iff.mp h
  rw [a.value_narrow, hnode]

/-- **Narrowing keeps exactly the stage.**  The cases of a narrowed tree are those of the tree that
ran in the block, in the same order; narrowing again changes nothing, and the order of two
narrowings does not matter.  In every granularity the entities are those of the cases that ran in
the block, so two builds that have the same cases in the block of their stage have the same entities
in it, whatever their other cases are. -/
theorem narrow_keeps_stage (name : String) (cs : List Case) (block : String) :
    let t := Tree.ofCases name cs
    (t.forBlock block).cases = t.cases.filter (fun c => block ∈ c.blocks) ∧
      (t.forBlock block).forBlock block = t.forBlock block ∧
      (∀ other, (t.forBlock block).forBlock other = (t.forBlock other).forBlock block) ∧
      (∀ g : Granularity, g.extract (t.forBlock block)
        = g.extract (.ofCases name (cs.filter fun c => block ∈ c.blocks))) ∧
      ∀ (a a' : Archive B) (b b' : B) (stage stage' name' : String) (cs' : List Case),
        a.blockOf? b stage = some block → a'.blockOf? b' stage' = some block →
        (cs.filter fun c => block ∈ c.blocks).Perm (cs'.filter fun c => block ∈ c.blocks) →
        ∀ g : Granularity, g.extract (a.narrow ⟨b, t⟩ stage).value.tree
          = g.extract (a'.narrow ⟨b', .ofCases name' cs'⟩ stage').value.tree := by
  refine ⟨cases_forBlock name cs block, forBlock_idem name cs block, forBlock_comm name cs block,
    fun g => g.extract_forBlock name name cs block, ?_⟩
  intro a a' b b' stage stage' name' cs' hblock hblock' hperm g
  rw [Archive.tree_narrow hblock, Archive.tree_narrow hblock', g.extract_forBlock name name,
    g.extract_forBlock name' name']
  exact g.extract_perm name name' hperm

/-- Cases of two blocks; the package `org.a` is first seen outside of block 4. -/
def unitCases : List Case :=
  [{ className := "org.a.SetupTest", name := "start", duration := .ofNat 9, blocks := ["2"] },
    { className := "org.b.UnitTest", name := "run", duration := .ofNat 3, blocks := ["5", "4"] },
    { className := "org.a.UnitTest", name := "run", duration := .ofNat 2, blocks := ["4"] }]

/-- The same cases in block 4, in another order, and another one outside of it. -/
def loadCases : List Case :=
  [{ className := "org.a.UnitTest", name := "run", duration := .ofNat 2, blocks := ["4"] },
    { className := "org.b.UnitTest", name := "run", duration := .ofNat 3, blocks := ["5", "4"] },
    { className := "org.b.UnitTest", name := "load", duration := .ofNat 8, blocks := ["6"] }]

def unitBuild : Position :=
  ⟨{ name := "run 1", graph := some ⟨[{ id := "2" }, { id := "4", label := some "unit" }]⟩ }, []⟩

/-- The narrowed tree has its packages in another order than the tree of the cases in the block, and
yet the entities of the stage are the same in both builds. -/
theorem narrow_keeps_stage_unitCases :
    ((Tree.ofCases "run 1" unitCases).forBlock "4").cases
        ≠ (Tree.ofCases "run 1" (unitCases.filter fun c => "4" ∈ c.blocks)).cases ∧
      (Position.archive []).blockOf? unitBuild "unit" = some "4" ∧
      (unitCases.filter fun c => "4" ∈ c.blocks).Perm (loadCases.filter fun c => "4" ∈ c.blocks) ∧
      ∀ g : Granularity,
        g.extract ((Position.archive []).narrow ⟨unitBuild, .ofCases "run 1" unitCases⟩ "unit").value.tree
          = g.extract
            ((Position.archive []).narrow ⟨unitBuild, .ofCases "run 2" loadCases⟩ "unit").value.tree := by
  have hblock : (Position.archive []).blockOf? unitBuild "unit" = some "4" := by cbv
  have hperm : (unitCases.filter fun c => "4" ∈ c.blocks).Perm
      (loadCases.filter fun c => "4" ∈ c.blocks) := by decide
  obtain ⟨-, -, -, -, hsame⟩ := narrow_keeps_stage (B := Position) "run 1" unitCases "4"
  exact ⟨by decide, hblock, hperm, hsame _ _ _ _ _ _ _ _ hblock hblock hperm⟩

end History

end TestLanes
