import TestLanes.Proofs.Partition.Shares
import TestLanes.Proofs.Plan.Order
import TestLanes.Proofs.Selection.Coverage

/-!
# The shape of a plan

Whatever is found, the lanes, the statistics and the source of a plan agree with each other.  Its
lanes follow from the entities alone (`Plan.Shaped`, `shaped_of_planFor`): either there are none,
and one lane runs everything, or they are spread over as many lanes as the statistics say.  The
entities are those of the build that is located, which has some unless it is narrowed to a stage, or
else those of files (`entitiesFrom`); and so is the source (`sourceFrom`).

A workspace is listed where nothing is located and estimates are asked for, and then once
(`count_planWith_marked`).  Otherwise it is as good as none.  One whose listing fails is as good as
one that lists nothing (`value_estimated_of_error`).
-/

namespace TestLanes

open Estimate (EstimateError Workspace sourcePatterns)
open History (Archive Finder Located Position)
open Logged (lines_bind value_bind)
open Report (DurationError)

/-! ## 1. Lanes and statistics

`planFor` makes a plan of entities, in one of two ways.  Without entities it is one lane for
everything; otherwise the entities are spread, and what is known of a partition gives each part of
the shape: the number of its selections, their kinds, and the lanes of its statistics.
-/

/-- How the lanes and the statistics of a plan for some entities belong together. -/
structure Plan.Shaped (p : Plan) (o : Options) (entities : EntityMap) : Prop where
  /-- There is a lane. -/
  length_pos : 0 < p.selections.length
  /-- The first lane leaves patterns out; so do the others, unless inclusions are made of a
  partition. -/
  kind : ∀ lane s, p.selections[lane]? = some s → s.kind
    = if o.inclusions = true ∧ p.stats.isSome = true ∧ lane ≠ 0 then .inclusion else .exclusion
  /-- Statistics are missing where there is nothing to spread. -/
  stats_eq_none_iff : p.stats = none ↔ entities.isEmpty = true
  /-- Then one lane runs everything. -/
  everything : p.stats = none → p.selections = [.everything]
  /-- Otherwise there are as many lanes as the statistics say. -/
  laneCount : ∀ stats, p.stats = some stats → p.selections.length = stats.laneCount
  /-- A count gives that many lanes, but none to spare and never zero. -/
  count : ∀ stats n, p.stats = some stats → o.parallelism = .count n →
    stats.laneCount = max 1 (min n entities.size)

namespace Options

/-- What is spread is a partition with its statistics. -/
theorem spread_eq_ok {o : Options} {entities : EntityMap} {source : Source} {plan : Plan}
    {stats : Stats} (h : o.spread entities source = .ok (plan, stats)) :
    ∃ p : Partition, p.Spreads entities (max (o.parallelism.lanes entities) 1) ∧
      p.stats = .ok stats ∧
      plan = ⟨o.granularity, p.selections o.inclusions, some stats, source⟩ := by
  have hlanes : 0 < max (o.parallelism.lanes entities) 1 :=
    Nat.lt_of_lt_of_le Nat.one_pos (Nat.le_max_right _ _)
  obtain ⟨p, hp, hspread⟩ := Partition.exists_compute entities hlanes
  refine ⟨p, hspread, ?_⟩
  unfold spread at h
  simp only [hp, Except.mapError, bind, Except.bind] at h
  cases hstats : p.stats with
  | error e => simp [hstats] at h
  | ok stats' =>
    simp only [hstats, Except.ok.injEq, Prod.mk.injEq] at h
    exact ⟨congrArg _ h.2, h.1 ▸ h.2 ▸ rfl⟩

/-- Entities are spread if there are any. -/
theorem value_planFor (o : Options) (entities : EntityMap) (source : Source) :
    (o.planFor entities source).value = if entities.isEmpty then .ok (o.fallback source)
      else (o.spread entities source).map Prod.fst := by
  unfold planFor
  split
  · rfl
  · cases o.spread entities source <;> rfl

/-- A partition of some entities, and its statistics, make a plan. -/
theorem value_planFor_of_compute {o : Options} {entities : EntityMap} {p : Partition} {stats : Stats}
    (source : Source) (hne : entities.isEmpty = false)
    (hp : Partition.compute entities (max (o.parallelism.lanes entities) 1) = .ok p)
    (hstats : p.stats = .ok stats) : (o.planFor entities source).value
      = .ok ⟨o.granularity, p.selections o.inclusions, some stats, source⟩ := by
  rw [value_planFor, hne, if_neg Bool.false_ne_true]
  simp only [spread, hp, hstats, bind, Except.bind, Except.mapError]
  rfl

/-- One lane for no entities. -/
theorem shaped_fallback (o : Options) (source : Source) {entities : EntityMap}
    (h : entities.isEmpty = true) : (o.fallback source).Shaped o entities where
  length_pos := Nat.one_pos
  kind lane s hs := by
    rw [if_neg fun hinclusion => absurd hinclusion.2.1 Bool.false_ne_true]
    exact List.mem_singleton.mp (List.mem_of_getElem? hs) ▸ rfl
  stats_eq_none_iff := iff_of_true rfl h
  everything _ := rfl
  laneCount _ hstats := nomatch hstats
  count _ _ hstats := nomatch hstats

/-- The lanes of a partition. -/
theorem shaped_of_spread {o : Options} {entities : EntityMap} {source : Source} {plan : Plan}
    {stats : Stats} (hne : ¬ entities.isEmpty = true)
    (h : o.spread entities source = .ok (plan, stats)) :
    plan.Shaped o entities ∧ plan.source = source := by
  obtain ⟨p, hspread, hstats, rfl⟩ := spread_eq_ok h
  have hlength := Partition.length_selections hspread o.inclusions
  have hlaneCount := (Partition.of_stats_eq_ok hstats).1.trans hspread.laneCount_eq
  refine ⟨⟨?_, fun lane s hs => ?_, ?_, ?_, ?_, ?_⟩, rfl⟩
  · rw [hlength]
    exact Nat.lt_of_lt_of_le Nat.one_pos (Nat.le_max_right _ _)
  · rw [Partition.eq_selection_of_getElem? hs, Partition.selection]
    simp
  · exact iff_of_false (Option.some_ne_none stats) hne
  · exact fun hnone => absurd hnone (Option.some_ne_none stats)
  · intro stats' h
    cases Option.some.inj h
    rw [hlength, hlaneCount]
  · intro stats' n h hn
    cases Option.some.inj h
    rw [hlaneCount, hn, Nat.max_comm]
    rfl

/-- **The lanes of a plan follow from its entities**, and its source is the one given. -/
theorem shaped_of_planFor {o : Options} {entities : EntityMap} {source : Source} {plan : Plan}
    (h : (o.planFor entities source).value = .ok plan) :
    plan.Shaped o entities ∧ plan.source = source := by
  rw [value_planFor] at h
  by_cases hempty : entities.isEmpty = true
  · rw [if_pos hempty] at h
    exact Except.ok.inj h ▸ ⟨o.shaped_fallback source hempty, rfl⟩
  · rw [if_neg hempty] at h
    cases hmade : o.spread entities source with
    | error e => exact absurd (hmade ▸ h) (fun h => nomatch h)
    | ok made =>
      rw [hmade] at h
      exact Except.ok.inj h ▸ shaped_of_spread hempty hmade

/-! ## 2. Entities and source

`entitiesFrom` and `sourceFrom` say where these come from, given what was located.  With them a plan
is `planFor` of the two (`value_planWith_eq`), and the first section applies, whatever was located.
What the source can be is then read off a definition with two branches.
-/

variable {B : Type}

/-- The entities that a plan is made for: those of the results that are read, or else those of
files. -/
def entitiesFrom (o : Options) (a : Archive B) (found : Option (Located B))
    (workspace : Option Workspace) : Except DurationError EntityMap :=
  match found with
  | some located => o.granularity.extract (o.reading a located).value.tree
  | none => .ok (o.estimated workspace).value

/-- The source of a plan: the build that is read, or else files, if they give entities. -/
def sourceFrom (o : Options) (a : Archive B) (found : Option (Located B))
    (workspace : Option Workspace) : Source :=
  match found with
  | some located => .reference (a.name (o.reading a located).value.build) o.stage
  | none => if (o.estimated workspace).value.isEmpty then .nothing else .estimate

/-- **A plan is made for its entities and has its source**, wherever they come from. -/
theorem value_planWith_eq (o : Options) {a : Archive B} {depth : Nat} {finders : List (Finder B)}
    {current : B} {found : Option (Located B)}
    (hfound : (a.locate depth finders current).value.found = found) (workspace : Option Workspace) :
    (o.planWith a depth finders current workspace).value
      = match o.entitiesFrom a found workspace with
        | .error e => .error (.duration e)
        | .ok entities => (o.planFor entities (o.sourceFrom a found workspace)).value := by
  rw [value_planWith, hfound]
  cases found with
  | none => rfl
  | some located =>
    dsimp only
    rw [planFromBuild_eq, value_bind, planFromReading, entitiesFrom]
    cases o.granularity.extract (o.reading a located).value.tree <;> rfl

/-- A plan has the shape of its entities, and its source. -/
theorem exists_entitiesFrom {o : Options} {a : Archive B} {depth : Nat} {finders : List (Finder B)}
    {current : B} {found : Option (Located B)} {workspace : Option Workspace} {plan : Plan}
    (hfound : (a.locate depth finders current).value.found = found)
    (h : (o.planWith a depth finders current workspace).value = .ok plan) :
    ∃ entities, o.entitiesFrom a found workspace = .ok entities ∧ plan.Shaped o entities ∧
      plan.source = o.sourceFrom a found workspace := by
  rw [value_planWith_eq o hfound] at h
  cases hentities : o.entitiesFrom a found workspace with
  | error e => exact absurd (hentities ▸ h) (fun h => nomatch h)
  | ok entities =>
    rw [hentities] at h
    exact ⟨entities, rfl, shaped_of_planFor h⟩

theorem exists_sourceFrom_eq_reference_iff {o : Options} {a : Archive B}
    {found : Option (Located B)} {workspace : Option Workspace} :
    (∃ build stage, o.sourceFrom a found workspace = .reference build stage) ↔ found ≠ none := by
  cases found with
  | some located => exact iff_of_true ⟨_, _, rfl⟩ (Option.some_ne_none located)
  | none =>
    refine iff_of_false (fun ⟨build, stage, h⟩ => ?_) (fun h => h rfl)
    rw [sourceFrom] at h
    split at h <;> exact nomatch h

theorem sourceFrom_eq_estimate_iff {o : Options} {a : Archive B} {found : Option (Located B)}
    {workspace : Option Workspace} : o.sourceFrom a found workspace = .estimate ↔
      found = none ∧ (o.estimated workspace).value.isEmpty = false := by
  cases found with
  | some located => exact iff_of_false (fun h => nomatch h) (fun h => nomatch h.1)
  | none =>
    rw [sourceFrom]
    cases (o.estimated workspace).value.isEmpty with
    | true => exact iff_of_false (fun h => nomatch h) (fun h => nomatch h.2)
    | false => exact iff_of_true rfl ⟨rfl, rfl⟩

/-- Without a stage all results are read, and a build is located for its results. -/
theorem isEmpty_entitiesFrom {o : Options} {a : Archive B} {depth : Nat} {finders : List (Finder B)}
    {current : B} {found : Option (Located B)} {workspace : Option Workspace} {entities : EntityMap}
    (hfound : (a.locate depth finders current).value.found = found) (hne : found ≠ none)
    (hstage : o.stage = none) (h : o.entitiesFrom a found workspace = .ok entities) :
    entities.isEmpty = false := by
  obtain ⟨located, rfl⟩ := Option.ne_none_iff_exists'.mp hne
  refine Granularity.extract_ne_empty h ?_
  rw [reading, hstage]
  exact a.totalCount_pos_of_found hfound

/-! ## 3. Listing a workspace

How often a workspace is listed cannot be seen in a plan, so the workspace is made to say a line
whenever it is asked (`Estimate.marked`).  The line changes no plan, and it comes as often among the
lines that are said as the workspace is listed.
-/

end Options

/-- The computation says one more line first. -/
def Logged.marked {α : Type} (mark : LogLine) (x : Logged α) : Logged α := ⟨x.value, mark :: x.lines⟩

/-- The workspace says one more line whenever it is listed. -/
def Estimate.marked (mark : LogLine) (workspace : Workspace) : Workspace :=
  fun patterns => (workspace patterns).marked mark

open Estimate (marked)

namespace Options

theorem value_estimated_marked (o : Options) (mark : LogLine) (workspace : Workspace) :
    (o.estimated (some (marked mark workspace))).value = (o.estimated (some workspace)).value := by
  unfold estimated Granularity.estimate
  cases o.estimate <;> cases o.granularity.canEstimate <;> rfl

/-- The line is said once, if the workspace is asked. -/
theorem lines_estimated_marked (o : Options) (mark : LogLine) (workspace : Workspace) :
    (o.estimated (some (marked mark workspace))).lines
      = (if o.estimate = true ∧ o.granularity.canEstimate = true then [mark] else [])
        ++ (o.estimated (some workspace)).lines := by
  unfold estimated Granularity.estimate
  cases o.estimate <;> cases o.granularity.canEstimate <;> rfl

theorem value_estimated (o : Options) (workspace : Workspace) :
    (o.estimated (some workspace)).value = if o.estimate = true then
      (o.granularity.estimate workspace).value.toOption.getD .empty else .empty := by
  rw [estimated]
  split
  · rw [value_bind]
    cases (o.granularity.estimate workspace).value <;> rfl
  · rfl

/-- **A listing that fails is as good as one of nothing.** -/
theorem value_estimated_of_error (o : Options) {failing nothing : Workspace} {e : EstimateError}
    (hfailing : (failing sourcePatterns).value = .error e)
    (hnothing : (nothing sourcePatterns).value = .ok []) :
    (o.estimated (some failing)).value = (o.estimated (some nothing)).value := by
  have hestimate : (o.granularity.estimate failing).value.toOption.getD .empty
      = (o.granularity.estimate nothing).value.toOption.getD .empty := by
    unfold Granularity.estimate Estimate.classes
    split
    · rw [value_bind, value_bind, hfailing, hnothing]
      rfl
    · rfl
  rw [value_estimated, value_estimated, hestimate]

/-- **A workspace is listed once**, if nothing is located and estimates are asked for and can be
made; otherwise it is not listed. -/
theorem count_planWith_marked (o : Options) (a : Archive B) (depth : Nat) (finders : List (Finder B))
    (current : B) (workspace : Workspace) (mark : LogLine) :
    (o.planWith a depth finders current (some (marked mark workspace))).lines.count mark
      = (o.planWith a depth finders current (some workspace)).lines.count mark
        + if (a.locate depth finders current).value.found = none ∧ o.estimate = true ∧
            o.granularity.canEstimate = true then 1 else 0 := by
  unfold planWith
  simp only [lines_bind, List.count_append]
  cases (a.locate depth finders current).value.found with
  | some located => simp
  | none =>
    simp only [planFromFiles, lines_bind, List.count_append, value_estimated_marked,
      lines_estimated_marked, true_and]
    by_cases hasked : o.estimate = true ∧ o.granularity.canEstimate = true
    · rw [if_pos hasked, if_pos hasked, List.count_singleton_self]
      omega
    · rw [if_neg hasked, if_neg hasked, List.count_nil, Nat.zero_add, Nat.add_zero]

/-- Where something is located, or no estimate is asked for, a workspace is as good as none. -/
theorem planWith_eq_of_idle {o : Options} {a : Archive B} {depth : Nat} {finders : List (Finder B)}
    {current : B} (h : (a.locate depth finders current).value.found = none → o.estimate = false)
    (workspace : Option Workspace) :
    o.planWith a depth finders current workspace = o.planWith a depth finders current none := by
  refine Logged.bind_congr ?_
  cases hfound : (a.locate depth finders current).value.found with
  | some located => rfl
  | none =>
    have hnothing : o.estimated workspace = o.estimated none := by
      cases workspace with
      | none => rfl
      | some workspace => exact if_neg (Bool.eq_false_iff.mp (h hfound))
    simp only [planFromFiles, hnothing]

/-- A plan depends on what a workspace lets expect, not on how this is found out. -/
theorem value_planWith_congr {o : Options} {w w' : Option Workspace}
    (h : (o.estimated w).value = (o.estimated w').value) (a : Archive B) (depth : Nat)
    (finders : List (Finder B)) (current : B) :
    (o.planWith a depth finders current w).value = (o.planWith a depth finders current w').value := by
  rw [value_planWith_eq o rfl, value_planWith_eq o rfl]
  cases (a.locate depth finders current).value.found with
  | some located => rfl
  | none => simp only [entitiesFrom, sourceFrom, h]

/-! ## 4. Plans

The parts are put together for any archive and any finders.  The plan is a function of the workspace
here, since the last three parts compare plans with different ones.
-/

/-- **The shape of a plan.**  Whatever is recorded, with any options and any workspace, a plan has
lanes and statistics that follow from its entities (`Plan.Shaped`).  Its source is a build exactly
if one was located, and an estimate exactly if none was and files gave entities; with a build and no
stage there are always statistics.  A workspace is listed only where nothing is located and
estimates are asked for, and then at most once; elsewhere it is as good as none.  And one whose
listing fails gives the same plan as one that lists nothing. -/
theorem planWith_shape (o : Options) (a : Archive B) (depth : Nat) (finders : List (Finder B))
    (current : B) :
    let found := (a.locate depth finders current).value.found
    let made := fun workspace => o.planWith a depth finders current workspace
    (∀ workspace plan, (made workspace).value = .ok plan →
      (∃ entities, o.entitiesFrom a found workspace = .ok entities ∧ plan.Shaped o entities) ∧
      ((∃ build stage, plan.source = .reference build stage) ↔ found ≠ none) ∧
      (plan.source = .estimate ↔ found = none ∧ (o.estimated workspace).value.isEmpty = false) ∧
      (found ≠ none → o.stage = none → plan.stats ≠ none)) ∧
    (∀ workspace mark, (made (some (marked mark workspace))).lines.count mark
      = (made (some workspace)).lines.count mark
        + if found = none ∧ o.estimate = true ∧ o.granularity.canEstimate = true then 1 else 0) ∧
    ((found = none → o.estimate = false) → ∀ workspace, made workspace = made none) ∧
    (∀ failing nothing e, (failing sourcePatterns).value = .error e →
      (nothing sourcePatterns).value = .ok [] →
      (made (some failing)).value = (made (some nothing)).value) := by
  intro found made
  refine ⟨fun workspace plan hplan => ?_, o.count_planWith_marked a depth finders current,
    planWith_eq_of_idle, fun failing nothing e hfailing hnothing => ?_⟩
  · obtain ⟨entities, hentities, hshaped, hsource⟩ := exists_entitiesFrom (show _ = found from rfl) hplan
    refine ⟨⟨entities, hentities, hshaped⟩, hsource ▸ exists_sourceFrom_eq_reference_iff,
      hsource ▸ sourceFrom_eq_estimate_iff, fun hsome hstage hstats => ?_⟩
    have hempty := isEmpty_entitiesFrom rfl hsome hstage hentities
    exact absurd (hshaped.stats_eq_none_iff.mp hstats) (Bool.eq_false_iff.mp hempty)
  · exact value_planWith_congr (o.value_estimated_of_error hfailing hnothing) a depth finders current

/-!  A build that is located and gives no entities needs a stage without a case in it.  With such a
run the plan is the one lane for everything, and it still names the build and the stage. -/

def idleStage : Options :=
  { parallelism := .count 0, inclusions := true, stage := some "unit", estimate := true }

def unitGraph : Pipeline.Graph := ⟨[{ id := "4", label := some "unit" }]⟩

/-- A run that has the stage, but no case in it. -/
def idleRun : History.Record where
  name := "run 1"
  results := .ok (some [{ className := "org.a.EarlyTest", name := "start", duration := .ofNat 5 }])
  graph := some unitGraph

/-- The run is located, but it has no entities to spread. -/
theorem value_planWith_idleStage :
    (idleStage.planWith (Position.archive []) 20 [] ⟨{ name := "run 2" }, [idleRun]⟩ none).value
      = .ok (idleStage.fallback (.reference "run 1" (some "unit"))) := by
  have hnode : unitGraph.findLabeled "unit" = some { id := "4", label := some "unit" } := by cbv
  have hread : ∀ tree, (idleStage.reading (Position.archive []) ⟨⟨idleRun, []⟩, tree⟩).value
      = ⟨⟨idleRun, []⟩, tree.forBlock "4"⟩ := fun tree =>
    (History.Archive.value_narrow _ _ _).trans (by
      simp only [Position.archive, idleRun, pure, Option.bind_some, hnode])
  rw [idleStage.value_planWith_eq (show _ = some ⟨⟨idleRun, []⟩, .ofCases "run 1" _⟩ from rfl),
    entitiesFrom, sourceFrom, hread]
  rfl

/-- A build is located and has results, but the plan of its stage has no statistics.  Where nothing
is recorded, a workspace that cannot be walked gives the plan of an empty one. -/
theorem planWith_shape_idleStage :
    let a := Position.archive []
    let found := (a.locate 20 [] ⟨{ name := "run 2" }, [idleRun]⟩).value.found
    let plan := idleStage.fallback (.reference "run 1" (some "unit"))
    let made := fun workspace => idleStage.planWith a 20 [] ⟨{ name := "run 1" }, []⟩ (some workspace)
    (idleStage.planWith a 20 [] ⟨{ name := "run 2" }, [idleRun]⟩ none).value = .ok plan ∧
      found ≠ none ∧
      ((∃ entities, idleStage.entitiesFrom a found none = .ok entities ∧
          plan.Shaped idleStage entities) ∧
        ((∃ build stage, plan.source = .reference build stage) ↔ found ≠ none) ∧
        (plan.source = .estimate ↔
          found = none ∧ (idleStage.estimated none).value.isEmpty = false) ∧
        (found ≠ none → idleStage.stage = none → plan.stats ≠ none)) ∧
      (made fun _ => pure (.error (.walk "src"))).value = (made fun _ => pure (.ok [])).value :=
  ⟨value_planWith_idleStage, Option.some_ne_none _,
    (planWith_shape idleStage (Position.archive []) 20 [] ⟨{ name := "run 2" }, [idleRun]⟩).1
      none _ value_planWith_idleStage,
    (planWith_shape idleStage (Position.archive []) 20 [] ⟨{ name := "run 1" }, []⟩).2.2.2
      (fun _ => pure (.error (.walk "src"))) (fun _ => pure (.ok [])) (.walk "src") rfl rfl⟩

end Options

end TestLanes
