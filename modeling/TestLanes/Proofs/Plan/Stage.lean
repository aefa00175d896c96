import TestLanes.Proofs.Granularity.Time
import TestLanes.Proofs.History.Narrowing
import TestLanes.Proofs.Pipeline.Search
import TestLanes.Proofs.Plan.Shape

/-!
# The stage that a plan reports

A plan reports the stage that it was asked for.  If the graph of the located build has a step for
the stage that the search finds, this is also the stage that was used: the entities of the plan are
those of the cases that ran in the block of the step (`get?_extract_forBlock`).

If the build has no graph, or no such step is found, all cases are used, and the plan is the one
without a stage (`value_planWith_stageless`), but for the stage that it still reports.  So the
report does not tell the two apart (`planWith_reference_stage`), and `reference_stage_unused` has a
run of each kind: one without a graph, and one whose graph lacks the stage.
-/

namespace TestLanes

open History (Archive Finder Located Position)
open Pipeline (Graph Node)
open Report (Case Tree caseTime filter_inBlock)

/-! ## 1. Entities of a stage

What is read of a build is decided by its step for the stage (`History.Archive.stepOf?`): its block
if there is one, and otherwise everything.  The build itself stays the one that was located.
-/

/-- **The entities of a block** are one for each key of the cases that ran in it, with the time of
these cases. -/
theorem Granularity.get?_extract_forBlock {g : Granularity} {t : Tree} {block : String}
    {m : EntityMap} (h : g.extract (t.forBlock block) = .ok m) (k : String) : m.get? k
      = if ∃ c ∈ t.cases, block ∈ c.blocks ∧ g.keyOf c = k then
          some ⟨k, .ofNat (caseTime (t.cases.filter fun c => block ∈ c.blocks ∧ g.keyOf c = k)),
            g.entityKind⟩
        else none := by
  rw [Tree.forBlock, filter_inBlock, extract_ofCases] at h
  split at h
  · cases h
  · obtain rfl := Except.ok.inj h
    have hkeys : (∃ c ∈ t.cases.filter fun c => block ∈ c.blocks, g.keyOf c = k)
        ↔ ∃ c ∈ t.cases, block ∈ c.blocks ∧ g.keyOf c = k := by
      simp only [List.mem_filter, decide_eq_true_eq, and_assoc]
    have htime : (t.cases.filter fun c => block ∈ c.blocks).filter (fun c => g.keyOf c = k)
        = t.cases.filter fun c => block ∈ c.blocks ∧ g.keyOf c = k := by
      simp only [List.filter_filter, Bool.decide_and, Bool.and_comm]
    rw [get?_gather_entityOf, htime]
    exact if_congr hkeys rfl rfl

/-- The step of the stage with a label, if the build has recorded one. -/
def History.Archive.stepOf? {B : Type} (a : Archive B) (b : B) (stage : String) : Option Node :=
  (a.graph b).value.bind fun graph => graph.findLabeled stage

namespace Options

variable {B : Type} {o : Options} {a : Archive B} {located : Located B} {stage : String}

/-- Results are read from the block of the stage, if the build has one. -/
theorem tree_reading_of_step {step : Node} (hstage : o.stage = some stage)
    (hstep : a.stepOf? located.build stage = some step) :
    (o.reading a located).value.tree = located.tree.forBlock step.id := by
  rw [reading, hstage]
  exact History.Archive.tree_narrow (congrArg (Option.map Node.id) hstep)

/-- All results are read, if it has none. -/
theorem value_reading_of_no_step (hstage : o.stage = some stage)
    (hstep : a.stepOf? located.build stage = none) : (o.reading a located).value = located := by
  have hnone : ((a.graph located.build).value.bind fun graph => graph.findLabeled stage) = none :=
    hstep
  rw [reading, hstage]
  show (a.narrow located stage).value = located
  rw [a.value_narrow, hnone]

/-- The build that results are read from is the one that was located. -/
theorem build_reading (o : Options) (a : Archive B) (located : Located B) :
    (o.reading a located).value.build = located.build := by
  unfold reading
  cases o.stage with
  | none => rfl
  | some stage =>
    dsimp only
    rw [a.value_narrow]
    split <;> rfl

/-! ## 2. Plans without a stage

The options with no stage in them read all results.  Nothing behind the reading of results looks at
the stage, except for the source, which is passed on as it is.  So two plans of the same entities
differ in their source only.
-/

/-- Lanes do not depend on the stage, nor on what is said about their source. -/
theorem value_planFor_stageless {entities : EntityMap} {source source' : Source} {plan : Plan}
    (h : (o.planFor entities source).value = .ok plan) :
    ({ o with stage := none }.planFor entities source').value
      = .ok { plan with source := source' } := by
  rw [value_planFor] at h ⊢
  by_cases hempty : entities.isEmpty = true
  · rw [if_pos hempty] at h ⊢
    exact Except.ok.inj h ▸ rfl
  · rw [if_neg hempty] at h ⊢
    unfold spread at h ⊢
    dsimp only at h ⊢
    cases hpartition : Partition.compute entities (max (o.parallelism.lanes entities) 1) with
    | error e => rw [hpartition] at h; exact nomatch h
    | ok p =>
      rw [hpartition] at h
      cases hstats : p.stats with
      | error e => simp [hstats, bind, Except.bind, Except.mapError, Except.map] at h
      | ok stats =>
        simp only [hstats, bind, Except.bind, Except.mapError, Except.map, Except.ok.injEq] at h ⊢
        exact h ▸ rfl

/-- What a plan from a build is made of: the build that was located, and the entities of the results
that were read from it. -/
theorem exists_located_of_reference {depth : Nat} {finders : List (Finder B)} {current : B}
    {workspace : Option Estimate.Workspace} {plan : Plan} {build : String} {reported : Option String}
    (h : (o.planWith a depth finders current workspace).value = .ok plan)
    (hsource : plan.source = .reference build reported) :
    ∃ located entities, (a.locate depth finders current).value.found = some located ∧
      build = a.name located.build ∧ reported = o.stage ∧
      o.granularity.extract (o.reading a located).value.tree = .ok entities ∧
      (o.planFor entities plan.source).value = .ok plan := by
  rw [value_planWith_eq o rfl] at h
  split at h
  · exact nomatch h
  · rename_i entities hentities
    have hfrom := (shaped_of_planFor h).2
    rw [← hfrom] at h
    obtain ⟨located, hfound⟩ := Option.ne_none_iff_exists'.mp
      (exists_sourceFrom_eq_reference_iff.mp ⟨build, reported, hfrom.symm.trans hsource⟩)
    rw [hfound] at hentities hfrom
    obtain ⟨hbuild, hstage⟩ := Source.reference.inj (hsource.symm.trans hfrom)
    exact ⟨located, entities, hfound, hbuild.trans (congrArg a.name (o.build_reading a located)),
      hstage, hentities, h⟩

/-- **Without its stage a plan is the same**, if all results were read anyway, but for the stage
that it reports. -/
theorem value_planWith_stageless {depth : Nat} {finders : List (Finder B)} {current : B}
    (workspace : Option Estimate.Workspace) {plan : Plan} {entities : EntityMap}
    (hfound : (a.locate depth finders current).value.found = some located)
    (hextract : o.granularity.extract located.tree = .ok entities)
    (hplan : (o.planFor entities plan.source).value = .ok plan) :
    ({ o with stage := none }.planWith a depth finders current workspace).value
      = .ok { plan with source := .reference (a.name located.build) none } := by
  have hall : { o with stage := none }.entitiesFrom a (some located) workspace = .ok entities :=
    hextract
  rw [value_planWith_eq _ hfound, hall]
  exact value_planFor_stageless hplan

/-! ## 3. What a plan reports

The plan is taken apart once (`exists_located_of_reference`).  What is then said of its entities
goes by whether the located build has the step; which steps it finds is known of the search.
-/

/-- **The reported stage.**  Whatever is recorded, a plan from a build reports the stage that it was
asked for, and so does its summary.  If the build has a step of this stage, the step has the label
and can be reached in the graph of the build, and the entities of the plan are those of the cases
that ran in its block, with their time.  If the build has no such step, its entities are those of
all cases, and without a stage the plan would be the same but for the stage that it reports.  A step
that has the label and can be reached is always found if the ids of the graph are distinct. -/
theorem planWith_reference_stage {o : Options} {a : Archive B} {depth : Nat}
    {finders : List (Finder B)} {current : B} {workspace : Option Estimate.Workspace} {plan : Plan}
    {build : String} {stage : Option String}
    (h : (o.planWith a depth finders current workspace).value = .ok plan)
    (hsource : plan.source = .reference build stage) :
    stage = o.stage ∧ (∀ directory, (plan.summary directory).source = .reference build stage) ∧
      ∃ located entities, (a.locate depth finders current).value.found = some located ∧
        build = a.name located.build ∧ (o.planFor entities plan.source).value = .ok plan ∧
        ∀ s, stage = some s →
          (∀ step, a.stepOf? located.build s = some step →
            (∃ graph, (a.graph located.build).value = some graph ∧ step.label = some s ∧
              graph.Reaches step) ∧
            ∀ k, entities.get? k
              = if ∃ c ∈ located.tree.cases, step.id ∈ c.blocks ∧ o.granularity.keyOf c = k then
                  some ⟨k, .ofNat (caseTime (located.tree.cases.filter fun c =>
                    step.id ∈ c.blocks ∧ o.granularity.keyOf c = k)), o.granularity.entityKind⟩
                else none) ∧
          (a.stepOf? located.build s = none →
            o.granularity.extract located.tree = .ok entities ∧
            ({ o with stage := none }.planWith a depth finders current workspace).value
              = .ok { plan with source := .reference build none }) ∧
          ∀ graph, (a.graph located.build).value = some graph → (Graph.ids graph.nodes).Nodup →
            a.stepOf? located.build s = none → ∀ n, graph.Reaches n → n.label ≠ some s := by
  obtain ⟨located, entities, hfound, rfl, rfl, hextract, hplan⟩ :=
    exists_located_of_reference h hsource
  refine ⟨rfl, fun _ => hsource, located, entities, hfound, rfl, hplan, fun s hs => ⟨?_, ?_, ?_⟩⟩
  · intro step hstep
    obtain ⟨graph, hgraph, hlabeled⟩ := Option.bind_eq_some_iff.mp hstep
    rw [tree_reading_of_step hs hstep] at hextract
    exact ⟨⟨graph, hgraph, Graph.reaches_of_findLabeled hlabeled⟩,
      Granularity.get?_extract_forBlock hextract⟩
  · intro hnone
    rw [value_reading_of_no_step hs hnone] at hextract
    exact ⟨hextract, value_planWith_stageless workspace hfound hextract hplan⟩
  · intro graph hgraph hdistinct hnone n hn
    rw [Archive.stepOf?, hgraph] at hnone
    exact Graph.label_ne_of_findLabeled_eq_none hdistinct hnone hn

/-!  The plan of a run with two classes, only one of which ran in a block.  With the step for the
stage in its graph the plan has one entity of 5 ms, and without it two of 14 ms in all.  Partitions
of one lane are written down (`singleLane`), as sorting is not evaluated; `hlane` says that they are
what is computed. -/

/-- A class in the block of a step, and another one outside of it. -/
def stagedCases : List Case :=
  [{ className := "org.a.SetupTest", name := "start", duration := .ofNat 9, blocks := ["2"] },
    { className := "org.a.UnitTest", name := "run", duration := .ofNat 5, blocks := ["4"] }]

/-- A run with these cases. -/
def stagedRun (graph : Option Graph) : History.Record :=
  { name := "run 1", results := .ok (some stagedCases), graph }

/-- A run that is going on, after this one. -/
def stagedBuild (graph : Option Graph) : Position :=
  ⟨{ name := "run 2", isBuilding := true }, [stagedRun graph]⟩

def oneLane : Options := { parallelism := .count 1, stage := some "unit" }

/-- Entities in a single lane. -/
def singleLane (m : EntityMap) : Partition where
  placements := m.toList.map fun e => ⟨e, 0⟩
  totals := [Millis.sum (m.toList.map Entity.duration)]

/-- The plan with a single lane for some entities that take some time. -/
def oneLanePlan (count time : Nat) : Plan where
  granularity := .testClass
  selections := [.everything]
  stats := some { entityCount := count, laneCount := 1, total := time, minimum := time,
                  average := time, maximum := time, deviation := 0 }
  source := .reference "run 1" (some "unit")

def unitEntities : EntityMap := .ofList [⟨"org.a.UnitTest", .ofNat 5, .testClass⟩]

def bothEntities : EntityMap :=
  .ofList [⟨"org.a.SetupTest", .ofNat 9, .testClass⟩, ⟨"org.a.UnitTest", .ofNat 5, .testClass⟩]

/-- The cases of the run before are located. -/
theorem found_stagedBuild (graph : Option Graph) :
    ((Position.archive []).locate 20 [] (stagedBuild graph)).value.found
      = some ⟨⟨stagedRun graph, []⟩, .ofCases "run 1" stagedCases⟩ := rfl

/-- The plan is made of the entities that are read from them. -/
theorem value_planWith_stagedBuild {graph : Option Graph} {m : EntityMap} {count time : Nat}
    (hread : Granularity.extract .testClass (oneLane.reading (Position.archive [])
      ⟨⟨stagedRun graph, []⟩, .ofCases "run 1" stagedCases⟩).value.tree = .ok m)
    (hne : m.isEmpty = false)
    (hlane : Partition.compute m (max (oneLane.parallelism.lanes m) 1) = .ok (singleLane m))
    (hstats : (singleLane m).stats.toOption = (oneLanePlan count time).stats)
    (heverything : (singleLane m).selections false = [.everything]) :
    (oneLane.planWith (Position.archive []) 20 [] (stagedBuild graph) none).value
      = .ok (oneLanePlan count time) := by
  have hentities : oneLane.entitiesFrom (Position.archive [])
      (some ⟨⟨stagedRun graph, []⟩, .ofCases "run 1" stagedCases⟩) none = .ok m := hread
  rw [value_planWith_eq oneLane (found_stagedBuild graph), hentities, sourceFrom, build_reading]
  refine (value_planFor_of_compute _ hne hlane (toOption_eq_some_iff.mp hstats)).trans ?_
  rw [show oneLane.inclusions = false from rfl, heverything]
  rfl

theorem stepOf?_unitGraph : (Position.archive []).stepOf? ⟨stagedRun (some unitGraph), []⟩ "unit"
    = some { id := "4", label := some "unit" } := by
  have hlabeled : unitGraph.findLabeled "unit" = some { id := "4", label := some "unit" } := by cbv
  exact hlabeled

/-- If the graph has the step, the plan is made of the class that ran in its block. -/
theorem value_planWith_unitGraph :
    (oneLane.planWith (Position.archive []) 20 [] (stagedBuild (some unitGraph)) none).value
      = .ok (oneLanePlan 1 5) := by
  have hlane : Partition.compute unitEntities 1 = .ok (singleLane unitEntities) :=
    Partition.compute_of_pairwise
      (s := ⟨[⟨.ofNat 5, 0⟩], (singleLane unitEntities).placements.reverse⟩) (by decide) (by decide)
      (by decide) (by decide)
  refine value_planWith_stagedBuild (m := unitEntities) ?_ rfl hlane (by decide +kernel) rfl
  rw [tree_reading_of_step rfl stepOf?_unitGraph]
  rfl

/-- If it has no such step, the plan is made of both classes. -/
theorem value_planWith_no_step {graph : Option Graph}
    (hstep : (Position.archive []).stepOf? ⟨stagedRun graph, []⟩ "unit" = none) :
    (oneLane.planWith (Position.archive []) 20 [] (stagedBuild graph) none).value
      = .ok (oneLanePlan 2 14) := by
  have hlane : Partition.compute bothEntities 1 = .ok (singleLane bothEntities) :=
    Partition.compute_of_pairwise
      (s := ⟨[⟨.ofNat 14, 0⟩], (singleLane bothEntities).placements.reverse⟩) (by decide)
      (by decide) (by decide) (by decide)
  refine value_planWith_stagedBuild (m := bothEntities) ?_ rfl hlane (by decide +kernel) rfl
  rw [value_reading_of_no_step rfl hstep]
  rfl

/-- The stage has a step in the graph, and the plan is made of the class that ran in its block. -/
theorem planWith_reference_stage_unitGraph :
    let a := Position.archive []
    let plan := oneLanePlan 1 5
    let located : Located Position :=
      ⟨⟨stagedRun (some unitGraph), []⟩, .ofCases "run 1" stagedCases⟩
    (oneLane.planWith a 20 [] (stagedBuild (some unitGraph)) none).value = .ok plan ∧
      plan.source = .reference "run 1" (some "unit") ∧
      (a.locate 20 [] (stagedBuild (some unitGraph))).value.found = some located ∧
      a.stepOf? located.build "unit" = some { id := "4", label := some "unit" } ∧
      ∃ entities, (oneLane.planFor entities plan.source).value = .ok plan ∧
        ∀ k, entities.get? k
          = if ∃ c ∈ located.tree.cases, "4" ∈ c.blocks ∧ Granularity.testClass.keyOf c = k then
              some ⟨k, .ofNat (caseTime (located.tree.cases.filter fun c =>
                "4" ∈ c.blocks ∧ Granularity.testClass.keyOf c = k)), .testClass⟩
            else none := by
  intro a plan located
  obtain ⟨-, -, found, entities, hfound, -, hplan, hstage⟩ :=
    planWith_reference_stage value_planWith_unitGraph rfl
  obtain rfl := Option.some.inj ((found_stagedBuild (some unitGraph)).symm.trans hfound)
  obtain ⟨hstep, -, -⟩ := hstage "unit" rfl
  exact ⟨value_planWith_unitGraph, rfl, found_stagedBuild _, stepOf?_unitGraph, entities, hplan,
    (hstep _ stepOf?_unitGraph).2⟩

def loadGraph : Graph := ⟨[{ id := "4", label := some "load" }]⟩

/-- **A stage that is reported but was not used.**  The run has no graph, or one without the stage,
so that both of its classes are in the plan.  Yet the plan is said to come from the stage. -/
theorem reference_stage_unused :
    let a := Position.archive []
    ∀ graph ∈ [none, some loadGraph],
      (a.locate 20 [] (stagedBuild graph)).value.found
          = some ⟨⟨stagedRun graph, []⟩, .ofCases "run 1" stagedCases⟩ ∧
        a.stepOf? ⟨stagedRun graph, []⟩ "unit" = none ∧
        (oneLane.planWith a 20 [] (stagedBuild graph) none).value = .ok (oneLanePlan 2 14) ∧
        (oneLanePlan 2 14).source = .reference "run 1" (some "unit") ∧
        ((oneLanePlan 2 14).summary none).source = .reference "run 1" (some "unit") := by
  intro a graph hgraph
  have hstep : a.stepOf? ⟨stagedRun graph, []⟩ "unit" = none := by
    rcases List.mem_pair.mp hgraph with rfl | rfl
    · rfl
    · have hlabeled : loadGraph.findLabeled "unit" = none := by cbv
      exact hlabeled
  exact ⟨found_stagedBuild graph, hstep, value_planWith_no_step hstep, rfl, rfl⟩

end Options

end TestLanes
