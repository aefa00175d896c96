import TestLanes.History.Memory
import TestLanes.Plan.Make
import TestLanes.Proofs.History.Reorder
import TestLanes.Proofs.History.Walk
import TestLanes.Proofs.Partition.Greedy

/-!
# Plans do not depend on the order of results

A plan reads the results of one build, and it reads them through the entities of their tree.  These
are the same for all orders of the cases, also within a stage, so the plan is the same in every part
(`planWith_alike`): the patterns of each lane in their order, the statistics, the source, and the
lines that are said on the way.

If the time of every class has a value, there is a plan whenever its statistics have values
(`error_planWith`).
-/

namespace TestLanes

open History (Archive Finder LoadError Located Position Reloaded)
open Logged (Alike alike_bind alike_bind_left alike_pure)
open Report (Case ClassesFit Tree cases_ofCases_perm classOf classesFit_perm)

/-! ## 1. Trees in which every class has a time

Whether each class has a time is a matter of the cases and not of their order, and it stays so for
some of the cases.  So it passes on to the part of a tree in a block, which is what a stage reads.
-/

namespace Report

/-- Fewer cases take no more time. -/
theorem classesFit_filter {cs : List Case} (h : ClassesFit cs) (p : Case → Bool) :
    ClassesFit (cs.filter p) := by
  intro c hc
  have hle : (classOf (cs.filter p) c.owner).time ≤ (classOf cs c.owner).time := by
    have hsub : ((cs.filter p).filter fun d => d.owner = c.owner).Sublist
        (cs.filter fun d => d.owner = c.owner) := List.filter_sublist.filter _
    exact sumOf_sublist (hsub.map _)
  have hfit := h c (List.mem_filter.mp hc).1
  omega

/-- The tree is made from cases, and each class has a time. -/
def Tree.Fits (t : Tree) : Prop := ∃ name cs, t = ofCases name cs ∧ ClassesFit cs

theorem Tree.Fits.forBlock {t : Tree} (h : t.Fits) (block : String) : (t.forBlock block).Fits := by
  obtain ⟨name, cs, rfl, hfit⟩ := h
  have hcases := (classesFit_perm (cases_ofCases_perm name cs)).mpr hfit
  exact ⟨name, _, rfl, classesFit_filter hcases (Case.inBlock block)⟩

/-- **It has entities.** -/
theorem Tree.Fits.exists_extract {t : Tree} (h : t.Fits) (g : Granularity) :
    ∃ entities, g.extract t = .ok entities := by
  obtain ⟨name, cs, rfl, hfit⟩ := h
  refine ⟨_, (Granularity.extract_ofCases g name cs).trans (if_neg ?_)⟩
  exact fun hover => hover.2 hfit

end Report

namespace Options

variable {B : Type}

/-! ## 2. The same plan

A plan is made in two steps: results are read, from all of a tree or from the block of a stage, and
then entities are made of them and spread.  Up to the first step the two sides have trees with the
same cases in another order (`Located.Reordered`); from the entities on they are equal, and nothing
is left to compare.
-/

/-- The results that a plan reads: those of the stage, if one is given. -/
def reading (o : Options) (a : Archive B) (located : Located B) : Logged (Located B) :=
  match o.stage with
  | some stage => a.narrow located stage
  | none => pure located

/-- The plan from the results that are read. -/
def planFromReading (o : Options) (a : Archive B) (located : Located B) :
    Logged (Except PlanError Plan) :=
  match o.granularity.extract located.tree with
  | .error e => pure (.error (.duration e))
  | .ok entities => o.planFor entities (.reference (a.name located.build) o.stage)

theorem planFromBuild_eq (o : Options) (a : Archive B) (located : Located B) :
    o.planFromBuild a located = o.reading a located >>= o.planFromReading a := by
  obtain ⟨parallelism, granularity, inclusions, stage, estimate, depth⟩ := o
  cases stage <;> rfl

theorem reading_alike (o : Options) {a : Archive B}
    (load : B → Logged (Except LoadError (Option Tree))) {x y : Located B} (h : x.Reordered y) :
    (o.reading a x).Alike Located.Reordered (o.reading (a.withLoad load) y) := by
  unfold reading
  cases o.stage with
  | none => exact alike_pure h
  | some stage => exact History.Archive.narrow_alike h stage

/-- The entities are the same, and so is all that is made of them. -/
theorem planFromBuild_alike (o : Options) {a : Archive B}
    (load : B → Logged (Except LoadError (Option Tree))) {x y : Located B} (h : x.Reordered y) :
    (o.planFromBuild a x).Alike Eq (o.planFromBuild (a.withLoad load) y) := by
  rw [planFromBuild_eq, planFromBuild_eq]
  refine alike_bind (reading_alike o load h) fun x' y' hx' => ?_
  rw [planFromReading, planFromReading, hx'.tree.extract_eq o.granularity, hx'.build]
  exact ⟨rfl, rfl⟩

/-- **All plans are the same**, and all that is said. -/
theorem planWith_alike (o : Options) {a : Archive B}
    {load : B → Logged (Except LoadError (Option Tree))} (h : ∀ b, (a.load b).Alike Reloaded (load b))
    (depth : Nat) (finders : List (Finder B)) (current : B)
    (workspace : Option Estimate.Workspace) :
    (o.planWith a depth finders current workspace).Alike Eq
      (o.planWith (a.withLoad load) depth finders current workspace) := by
  refine alike_bind (History.Archive.locate_alike h depth finders current) fun s s' hs => ?_
  obtain ⟨found, loaded⟩ := s
  obtain ⟨found', loaded'⟩ := s'
  obtain ⟨hfound, -⟩ := hs
  cases hfound with
  | none => exact ⟨rfl, rfl⟩
  | some hlocated => exact planFromBuild_alike o load hlocated

/-! ## 3. Plans that there are

An error can come from the entities or from the statistics.  The lemmas follow the definitions
outwards, from the spreading to the plan, and leave only the second kind.
-/

/-- Entities can always be spread, so only the statistics may be missing. -/
theorem error_spread {o : Options} {entities : EntityMap} {source : Source} {e : PlanError}
    (h : o.spread entities source = .error e) : e = .stats .sumTooLarge := by
  have hlanes : 0 < max (o.parallelism.lanes entities) 1 :=
    Nat.lt_of_lt_of_le Nat.one_pos (Nat.le_max_right _ _)
  obtain ⟨p, hp, -⟩ := Partition.exists_compute entities hlanes
  unfold spread at h
  simp only [hp, Except.mapError, bind, Except.bind] at h
  cases hstats : p.stats with
  | ok stats => simp [hstats] at h
  | error e' =>
    cases e'
    simpa [hstats] using h.symm

theorem error_planFor {o : Options} {entities : EntityMap} {source : Source} {e : PlanError}
    (h : (o.planFor entities source).value = .error e) : e = .stats .sumTooLarge := by
  rw [planFor] at h
  by_cases hempty : entities.isEmpty
  · rw [if_pos hempty] at h
    exact absurd h (by simp [bind, pure])
  · rw [if_neg hempty] at h
    cases hspread : o.spread entities source with
    | error e' =>
      rw [hspread] at h
      exact Except.error.inj h ▸ error_spread hspread
    | ok made =>
      rw [hspread] at h
      exact absurd h (by simp [bind, pure])

/-- Narrowing gives the same tree, or the part of it in one block. -/
theorem fits_narrow (a : Archive B) {located : Located B} (h : located.tree.Fits) (stage : String) :
    (a.narrow located stage).value.tree.Fits := by
  rw [a.value_narrow]
  split
  · exact h.forBlock _
  · exact h

theorem fits_reading (o : Options) (a : Archive B) {located : Located B} (h : located.tree.Fits) :
    (o.reading a located).value.tree.Fits := by
  unfold reading
  cases o.stage with
  | none => exact h
  | some stage => exact fits_narrow a h stage

theorem error_planFromBuild {o : Options} {a : Archive B} {located : Located B} {e : PlanError}
    (hfits : located.tree.Fits) (h : (o.planFromBuild a located).value = .error e) :
    e = .stats .sumTooLarge := by
  obtain ⟨entities, hentities⟩ := (fits_reading o a hfits).exists_extract o.granularity
  rw [planFromBuild_eq, Logged.value_bind, planFromReading, hentities] at h
  exact error_planFor h

/-- A plan comes from the build that is found, or from files. -/
theorem value_planWith (o : Options) (a : Archive B) (depth : Nat) (finders : List (Finder B))
    (current : B) (workspace : Option Estimate.Workspace) :
    (o.planWith a depth finders current workspace).value
      = match (a.locate depth finders current).value.found with
        | some located => (o.planFromBuild a located).value
        | none => (o.planFromFiles workspace).value := by
  unfold planWith
  rw [Logged.value_bind]
  cases (a.locate depth finders current).value.found <;> rfl

/-- **Nothing else is missing.** -/
theorem error_planWith {o : Options} {a : Archive B} {depth : Nat} {finders : List (Finder B)}
    {current : B} {workspace : Option Estimate.Workspace} {e : PlanError}
    (hfits : ∀ located, (a.locate depth finders current).value.found = some located →
      located.tree.Fits)
    (h : (o.planWith a depth finders current workspace).value = .error e) :
    e = .stats .sumTooLarge := by
  rw [value_planWith] at h
  cases hfound : (a.locate depth finders current).value.found with
  | none =>
    rw [hfound] at h
    exact error_planFor h
  | some located =>
    rw [hfound] at h
    exact error_planFromBuild (hfits located hfound) h

/-! ## 4. Plans and the order of results

The two sides are compared as whole logged computations, so that the lines said on the way count as
well.
-/

/-- **Reordering results changes nothing.**  Let another archive load, for every build, the same
cases in another order.  Then every plan is the same with either archive, in its patterns, its
statistics and its source, and so is what is said on the way.  If every class of the results in use
has a time, there is a plan, unless its statistics exceed their bounds. -/
theorem planWith_withLoad (o : Options) (a : Archive B)
    (load : B → Logged (Except LoadError (Option Tree))) (h : ∀ b, (a.load b).Alike Reloaded (load b))
    (depth : Nat) (finders : List (Finder B)) (current : B)
    (workspace : Option Estimate.Workspace) :
    o.planWith (a.withLoad load) depth finders current workspace
        = o.planWith a depth finders current workspace ∧
      ((∀ located, (a.locate depth finders current).value.found = some located →
          located.tree.Fits) →
        ∀ e, (o.planWith a depth finders current workspace).value = .error e →
          e = .stats .sumTooLarge) :=
  ⟨(planWith_alike o h depth finders current workspace).eq.symm, fun hfits _ => error_planWith hfits⟩

def threeCases : List Case :=
  [{ className := "org.b.LateTest", name := "run[1]", duration := .ofNat 7, blocks := ["4"] },
    { className := "org.a.EarlyTest", name := "start", duration := .ofNat 5, blocks := ["4"] },
    { className := "org.b.LateTest", name := "run[2]", duration := .ofNat 6, blocks := ["4"] }]

/-- A build that is running, after one with these cases. -/
def secondBuild (cases : List Case) : Position :=
  ⟨{ name := "run 2", isBuilding := true },
    [{ name := "run 1", results := .ok (some cases),
       graph := some ⟨[{ id := "4", label := some "unit" }]⟩ }]⟩

/-- The results of a build, with its cases in reverse order. -/
def reversed (p : Position) : Logged (Except LoadError (Option Tree)) :=
  pure (p.record.results.map fun cases => cases.map fun cs => .ofCases p.record.name cs.reverse)

theorem load_alike_reversed (target : List History.Record) (p : Position) :
    ((Position.archive target).load p).Alike Reloaded (reversed p) := by
  refine alike_pure ?_
  rw [Position.tree]
  cases p.record.results with
  | error e => exact .error e
  | ok cases =>
    cases cases with
    | none => exact .nothing
    | some cs => exact .tree ⟨p.record.name, cs, cs.reverse, cs.reverse_perm.symm, rfl, rfl⟩

def unitStage : Options :=
  { parallelism := .count 2, granularity := .javaCase, inclusions := true, stage := some "unit" }

/-- A tree that has its classes in another order gives the same plan for a stage. -/
theorem planWith_withLoad_threeCases :
    Tree.ofCases "run 1" threeCases.reverse ≠ Tree.ofCases "run 1" threeCases ∧
      unitStage.planWith ((Position.archive []).withLoad reversed) 20 [] (secondBuild threeCases) none
        = unitStage.planWith (Position.archive []) 20 [] (secondBuild threeCases) none ∧
      ∀ e, (unitStage.planWith (Position.archive []) 20 [] (secondBuild threeCases) none).value
          = .error e → e = .stats .sumTooLarge := by
  have hfits : ∀ located, ((Position.archive []).locate 20 [] (secondBuild threeCases)).value.found
      = some located → located.tree.Fits := by
    intro located hfound
    have htree : some (Tree.ofCases "run 1" threeCases) = some located.tree :=
      congrArg (Option.map Located.tree) hfound
    exact ⟨"run 1", threeCases, (Option.some.inj htree).symm, by decide⟩
  obtain ⟨hsame, herror⟩ := planWith_withLoad unitStage (Position.archive []) reversed
    (load_alike_reversed []) 20 [] (secondBuild threeCases) none
  exact ⟨by decide, hsame, herror hfits⟩

end Options

end TestLanes
