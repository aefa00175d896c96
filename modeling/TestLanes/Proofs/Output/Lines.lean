import TestLanes.Proofs.Granularity.Time
import TestLanes.Proofs.Output.Paths
import TestLanes.Proofs.Plan.Shape
import TestLanes.Report.Reader

/-!
# Lines of lane files

A lane's file has a line feed after each pattern, and nothing marks a line feed inside of one.  So
the lines of the file are the lines of the patterns one after another (`lines_fileText`), and they
are the patterns exactly if no pattern has a line feed (`lines_fileText_eq_iff`).  A pattern has the
line feeds of the names that its case was reported with (`exists_case_of_mem_patterns`,
`lineFeed_of_mem_elements`), and a report can give a name any character: `splitFiles_readBack` says
for which plans the files can be read back, and `twoLineReport` is a report whose plan cannot.
-/

namespace TestLanes

open Files (Disk)
open History (Archive Located Position)
open Report (Case Tree plainName unpackaged?_eq_some)

/-! ## 1. Lines

What follows the last line feed of a text is no line, so a file that ends with one has as many lines
as line feeds.  A pattern with line feeds takes up one line more for each.
-/

namespace Output

/-- The lines of a text: what precedes each line feed.  What follows the last one is no line. -/
def lines (text : String) : List String :=
  (Text.splitOn '\n' text.toList).dropLast.map String.ofList

def patternLines (pattern : String) : List String :=
  (Text.splitOn '\n' pattern.toList).map String.ofList

/-- **The lines of a file** are those of its patterns. -/
theorem lines_fileText (s : Selection) : lines (fileText s) = s.patterns.flatMap patternLines := by
  have hpatterns : ∀ ps : List String,
      Text.splitOn '\n' (String.join (ps.map (· ++ "\n"))).toList
        = (ps.flatMap fun p => Text.splitOn '\n' p.toList) ++ [[]] := by
    intro ps
    induction ps with
    | nil => rfl
    | cons p ps ih =>
      have hcons : (String.join ((p :: ps).map (· ++ "\n"))).toList
          = p.toList ++ '\n' :: (String.join (ps.map (· ++ "\n"))).toList := by simp
      rw [hcons, Text.splitOn_append_cons, ih, List.flatMap_cons, List.append_assoc]
  rw [lines, fileText, hpatterns, List.dropLast_concat, List.map_flatMap]
  rfl

/-- Nothing follows the last line, and what is between the lines are single line feeds. -/
theorem join_lines_fileText (s : Selection) :
    String.join ((lines (fileText s)).map (· ++ "\n")) = fileText s := by
  have hpattern : ∀ cs : List Char,
      ((Text.splitOn '\n' cs).flatMap fun piece => piece ++ ['\n']) = cs ++ ['\n'] := by
    intro cs
    induction cs with
    | nil => rfl
    | cons c cs ih =>
      rw [Text.splitOn]
      split
      · next h => simp [h, ih]
      · split
        · next hnil => exact absurd hnil (Text.splitOn_ne_nil '\n' cs)
        · next piece pieces hpieces =>
          rw [hpieces] at ih
          simpa using ih
  refine String.toList_inj.mp ?_
  rw [lines_fileText, fileText, String.toList_join, String.toList_join, List.flatMap_map,
    List.flatMap_map, List.flatMap_assoc]
  refine congrArg s.patterns.flatMap (funext fun p => ?_)
  rw [patternLines, List.flatMap_map]
  simpa using hpattern p.toList

/-- There is one line for each pattern and one more for each line feed in a pattern. -/
theorem length_lines_fileText (s : Selection) : (lines (fileText s)).length
    = s.patterns.length + sumOf (s.patterns.map fun p => p.toList.count '\n') := by
  rw [lines_fileText]
  induction s.patterns with
  | nil => rfl
  | cons p ps ih =>
    rw [List.flatMap_cons, List.length_append, ih, patternLines, List.length_map,
      Text.length_splitOn, List.length_cons, List.map_cons, sumOf_cons]
    omega

/-- **The lines are the patterns** exactly if no pattern has a line feed. -/
theorem lines_fileText_eq_iff (s : Selection) :
    lines (fileText s) = s.patterns ↔ ∀ p ∈ s.patterns, '\n' ∉ p.toList := by
  constructor
  · intro hsame p hp hfeed
    have hlength := length_lines_fileText s
    rw [hsame, sumOf_eq_sum] at hlength
    have hzero : (s.patterns.map fun p => p.toList.count '\n').sum = 0 := by omega
    have hcount := List.sum_eq_zero_iff_forall_eq_nat.mp hzero _ (List.mem_map_of_mem hp)
    exact absurd hfeed (List.count_eq_zero.mp hcount)
  · intro hnone
    rw [lines_fileText]
    calc s.patterns.flatMap patternLines
        = s.patterns.flatMap fun p => [p] := by
          refine List.flatMap_congr fun p hp => ?_
          rw [patternLines, Text.splitOn_eq_singleton (hnone p hp)]
          simp
      _ = s.patterns := List.flatMap_singleton' s.patterns

end Output

/-! ## 2. Line feeds of names

A pattern is made of the key of an entity, and a key of the names of a case.  On the way characters
are left out, dots become slashes, and fixed parts are added, none of which makes a line feed.
-/

/-- A pattern has a line feed only if the key of its entity does. -/
theorem lineFeed_of_mem_elements {e : Entity} {x : String} (hx : x ∈ e.elements)
    (hfeed : '\n' ∈ x.toList) : '\n' ∈ e.key.toList := by
  unfold Entity.elements at hx
  split at hx
  · have hpath : '\n' ∈ (Entity.classPath e.key).toList := by
      rcases List.mem_cons.mp hx with rfl | hx
      · simpa using hfeed
      · obtain rfl := List.mem_singleton.mp hx
        simpa using hfeed
    rw [Entity.classPath, String.toList_ofList] at hpath
    obtain ⟨c, hc, hmap⟩ := List.mem_map.mp hpath
    split at hmap
    · exact absurd hmap (by decide)
    · exact hmap ▸ hc
  · obtain rfl := List.mem_singleton.mp hx
    exact hfeed

theorem mem_of_mem_plainName {s : String} {c : Char} (h : c ∈ (plainName s).toList) :
    c ∈ s.toList := by
  unfold plainName at h
  cases hname : Report.unpackaged? s.toList with
  | none =>
    rw [hname] at h
    exact h
  | some name =>
    rw [hname, Option.map_some, Option.getD_some, String.toList_ofList] at h
    rcases (unpackaged?_eq_some hname).2 with hs | hs
    · rw [hs]
      exact List.mem_cons_of_mem _ h
    · rw [hs]
      exact List.mem_append_right _ (List.mem_cons_of_mem _ h)

theorem mem_of_mem_stripParameters {name : String} {c : Char}
    (h : c ∈ (stripParameters name).toList) : c ∈ name.toList := by
  unfold stripParameters at h
  split at h
  · rw [String.toList_ofList] at h
    exact (List.takeWhile_sublist _).subset h
  · exact h

/-- The key of a case has a line feed only if one of its names does. -/
theorem Granularity.lineFeed_of_keyOf {g : Granularity} {c : Case}
    (h : '\n' ∈ (g.keyOf c).toList) : '\n' ∈ c.className.toList ∨ '\n' ∈ c.name.toList := by
  cases g with
  | testClass => exact Or.inl (mem_of_mem_plainName h)
  | testCase => exact Or.inr h
  | qualifiedCase | parameterizedCase =>
    simp only [keyOf, String.toList_append, List.mem_append] at h
    rcases h with (h | h) | h
    · exact Or.inl (mem_of_mem_plainName h)
    · exact absurd h (by decide)
    · exact Or.inr h
  | javaCase =>
    simp only [keyOf, String.toList_append, List.mem_append] at h
    rcases h with (h | h) | h
    · exact Or.inl (mem_of_mem_plainName h)
    · exact absurd h (by decide)
    · exact Or.inr (mem_of_mem_stripParameters h)

/-- An entity of a tree is known as one of its cases is. -/
theorem Granularity.exists_case_of_mem_extract {g : Granularity} {name : String} {cs : List Case}
    {m : EntityMap} (h : g.extract (.ofCases name cs) = .ok m) {e : Entity} (he : e ∈ m.toList) :
    ∃ c ∈ cs, (g.entityOf c).key = e.key ∧ (g.entityOf c).kind = e.kind := by
  rw [extract_ofCases] at h
  split at h
  · cases h
  · obtain rfl := Except.ok.inj h
    have hget := EntityMap.get?_eq_some_iff.mpr ⟨he, rfl⟩
    rw [get?_gather_entityOf] at hget
    split at hget
    · next hkey =>
      obtain ⟨c, hc, hkey⟩ := hkey
      have hkind := congrArg Entity.kind (Option.some.inj hget)
      exact ⟨c, hc, (g.key_entityOf c).trans hkey, hkind⟩
    · cases hget

/-! ## 3. Patterns of a plan

A selection lists patterns of entities, the entities are extracted from the results that are read,
and these are the located results or a part of them.  Along this way every pattern goes back to a
case of the results.
-/

namespace Options

/-- What a plan lists are patterns of its entities. -/
theorem exists_entity_of_mem_patterns {o : Options} {entities : EntityMap} {source : Source}
    {plan : Plan} (h : (o.planFor entities source).value = .ok plan) {s : Selection}
    (hs : s ∈ plan.selections) {x : String} (hx : x ∈ s.patterns) :
    ∃ e ∈ entities.toList, x ∈ e.elements := by
  rw [value_planFor] at h
  split at h
  · cases h
    rw [List.mem_singleton.mp hs] at hx
    cases hx
  · cases hmade : o.spread entities source with
    | error e =>
      rw [hmade] at h
      cases h
    | ok made =>
      rw [hmade] at h
      obtain rfl : made.1 = plan := Except.ok.inj h
      obtain ⟨p, hspread, -, hplan⟩ := spread_eq_ok hmade
      rw [hplan] at hs
      obtain ⟨lane, -, rfl⟩ := List.mem_map.mp hs
      obtain ⟨q, hq, -, hxq⟩ := Partition.mem_patterns_selection.mp hx
      exact ⟨q.entity, hspread.entity_mem hq, hxq⟩

variable {B : Type}

/-- The results that are read are made of cases that are there. -/
theorem exists_ofCases_reading (o : Options) (a : Archive B) (build : B) (name : String)
    (cases : List Case) : ∃ read, (o.reading a ⟨build, .ofCases name cases⟩).value.tree
      = .ofCases name read ∧ ∀ c ∈ read, c ∈ cases := by
  unfold reading
  cases o.stage with
  | none => exact ⟨cases, rfl, fun c hc => hc⟩
  | some stage =>
    dsimp only
    rw [a.value_narrow]
    split
    · next node _ =>
      refine ⟨(Tree.ofCases name cases).cases.filter (Case.inBlock node.id), rfl, fun c hc => ?_⟩
      exact (Report.cases_ofCases_perm name cases).mem_iff.mp (List.mem_filter.mp hc).1
    · exact ⟨cases, rfl, fun c hc => hc⟩

/-- **What a plan of some results lists are patterns of their cases.** -/
theorem exists_case_of_mem_patterns {o : Options} {a : Archive B} {build : B} {name : String}
    {cases : List Case} {plan : Plan}
    (h : (o.planFromBuild a ⟨build, .ofCases name cases⟩).value = .ok plan) {s : Selection}
    (hs : s ∈ plan.selections) {x : String} (hx : x ∈ s.patterns) :
    ∃ c ∈ cases, x ∈ (o.granularity.entityOf c).elements := by
  obtain ⟨read, hread, hsub⟩ := o.exists_ofCases_reading a build name cases
  rw [planFromBuild_eq, Logged.value_bind, planFromReading, hread] at h
  cases hentities : o.granularity.extract (.ofCases name read) with
  | error e =>
    rw [hentities] at h
    cases h
  | ok entities =>
    rw [hentities] at h
    obtain ⟨e, he, hxe⟩ := exists_entity_of_mem_patterns h hs hx
    obtain ⟨c, hc, hkey, hkind⟩ := Granularity.exists_case_of_mem_extract hentities he
    exact ⟨c, hsub c hc, by rwa [Entity.elements, hkey, hkind]⟩

/-! ## 4. Reading the files of a plan -/

/-- **When lane files can be read back.**  Take the plan of any results, with any options, and write
it to a directory.  Each lane then has a file at its path, and the file is its lines with a line
feed after each one.  The lines are those of the lane's patterns in order, one for each pattern and
one more for each line feed in a pattern; so they are the patterns exactly if none of these has a
line feed.  None has one if no name that a case was reported with has one. -/
theorem splitFiles_readBack {o : Options} {a : Archive B} {build : B} {name : String}
    {cases : List Case} {plan : Plan} {d d' : Disk} {directory : String}
    (hplan : (o.planFromBuild a ⟨build, .ofCases name cases⟩).value = .ok plan)
    (hwritten : (Output.writeSelections d directory plan.selections).value = (.ok (), d')) :
    ∀ lane s, plan.selections[lane]? = some s →
      ∃ text, d'.readText (Output.pathFor directory lane s) = .ok text ∧
        text = String.join ((Output.lines text).map (· ++ "\n")) ∧
        Output.lines text = s.patterns.flatMap Output.patternLines ∧
        (Output.lines text).length
          = s.patterns.length + sumOf (s.patterns.map fun p => p.toList.count '\n') ∧
        (Output.lines text = s.patterns ↔ ∀ p ∈ s.patterns, '\n' ∉ p.toList) ∧
        ((∀ c ∈ cases, '\n' ∉ c.className.toList ∧ '\n' ∉ c.name.toList) →
          Output.lines text = s.patterns) := by
  intro lane s hs
  refine ⟨Output.fileText s, Output.readText_pathFor hwritten hs,
    (Output.join_lines_fileText s).symm, Output.lines_fileText s, Output.length_lines_fileText s,
    Output.lines_fileText_eq_iff s, fun hnames => ?_⟩
  refine (Output.lines_fileText_eq_iff s).mpr fun x hx hfeed => ?_
  obtain ⟨c, hc, hxc⟩ := exists_case_of_mem_patterns hplan (List.mem_of_getElem? hs) hx
  have hkey := lineFeed_of_mem_elements hxc hfeed
  rw [Granularity.key_entityOf] at hkey
  rcases Granularity.lineFeed_of_keyOf hkey with hclass | hname
  · exact (hnames c hc).1 hclass
  · exact (hnames c hc).2 hname

def twoLineReport : String :=
  "<testsuite><testcase classname='c' name='x&#10;y'/><testcase classname='c' name='z'/></testsuite>"

def twoLineCases : List Case :=
  [{ className := "c", name := "x\ny" }, { className := "c", name := "z" }]

def twoLanes : Options := { parallelism := .count 2, granularity := .testCase }

/-- The plan for the cases: both take no time, so the first lane runs them. -/
def twoLinePlan : Plan :=
  ⟨.testCase, [⟨.exclusion, []⟩, ⟨.exclusion, ["x\ny", "z"]⟩],
    some { entityCount := 2, laneCount := 2, total := 0, minimum := 0, average := 0, maximum := 0,
           deviation := 0 },
    .reference "run 1" none⟩

def twoLineEntities : EntityMap := .gather (twoLineCases.map (Granularity.entityOf .testCase))

def twoLinePartition : Partition where
  placements := [⟨⟨"x\ny", 0, .testCase⟩, 0⟩, ⟨⟨"z", 0, .testCase⟩, 0⟩]
  totals := [0, 0]

theorem compute_twoLineEntities : Partition.compute twoLineEntities 2 = .ok twoLinePartition :=
  Partition.compute_of_pairwise (s := ⟨freshQueue 2, twoLinePartition.placements.reverse⟩) (by decide)
    (by decide) (by decide) (by decide)

theorem value_planFromBuild_twoLineCases :
    (twoLanes.planFromBuild (Position.archive [])
      ⟨⟨{ name := "run 1" }, []⟩, .ofCases "run 1" twoLineCases⟩).value = .ok twoLinePlan := by
  have hextract : Granularity.extract .testCase (.ofCases "run 1" twoLineCases)
      = .ok twoLineEntities := (Granularity.extract_ofCases _ _ _).trans (if_neg (by decide))
  have hstats : twoLinePartition.stats.toOption = twoLinePlan.stats := by decide +kernel
  have hplan : (twoLanes.planFor twoLineEntities (.reference "run 1" none)).value
      = .ok twoLinePlan :=
    value_planFor_of_compute _ (by decide) compute_twoLineEntities (toOption_eq_some_iff.mp hstats)
  have hread : (twoLanes.reading (Position.archive [])
      ⟨⟨{ name := "run 1" }, []⟩, .ofCases "run 1" twoLineCases⟩).value.tree
        = .ofCases "run 1" twoLineCases := rfl
  have hcases : twoLanes.granularity = .testCase := rfl
  rw [planFromBuild_eq, Logged.value_bind, planFromReading, hread, hcases, hextract]
  exact hplan

def emptyDisk : Disk := ⟨.directory [], []⟩

theorem exists_written_twoLinePlan : ∃ d',
    (Output.writeSelections emptyDisk "out" twoLinePlan.selections).value = (.ok (), d') := by
  have hok : (Output.writeSelections emptyDisk "out" twoLinePlan.selections).value.1 = .ok () := by
    decide
  exact ⟨_, Prod.ext hok rfl⟩

/-- The file of the second lane can be read, but what it lists has a line feed. -/
theorem splitFiles_readBack_twoLineReport :
    ∃ (d' : Disk) (text : String),
      d'.readText (Output.pathFor "out" 1 ⟨.exclusion, ["x\ny", "z"]⟩) = .ok text ∧
      text = String.join ((Output.lines text).map (· ++ "\n")) ∧
      Output.lines text = ["x\ny", "z"].flatMap Output.patternLines ∧
      (Output.lines text).length = 2 + sumOf (["x\ny", "z"].map fun p => p.toList.count '\n') ∧
      (Output.lines text = ["x\ny", "z"] ↔ ∀ p ∈ ["x\ny", "z"], '\n' ∉ p.toList) ∧
      ((∀ c ∈ twoLineCases, '\n' ∉ c.className.toList ∧ '\n' ∉ c.name.toList) →
        Output.lines text = ["x\ny", "z"]) := by
  obtain ⟨d', hwritten⟩ := exists_written_twoLinePlan
  exact ⟨d', splitFiles_readBack value_planFromBuild_twoLineCases hwritten 1 _ rfl⟩

/-- **A report whose plan cannot be read back.**  Its two cases are read and make a plan of two
lanes, and the plan is written without a fault.  The second lane leaves out two tests, but its file
has three lines, and none of them is the name of the first test. -/
theorem lines_ne_patterns_twoLineReport :
    Report.readReport (.ofString twoLineReport) = .ok twoLineCases ∧
      (twoLanes.planFromBuild (Position.archive [])
        ⟨⟨{ name := "run 1" }, []⟩, .ofCases "run 1" twoLineCases⟩).value = .ok twoLinePlan ∧
      ∃ d', (Output.writeSelections emptyDisk "out" twoLinePlan.selections).value = (.ok (), d') ∧
        ∃ s text, twoLinePlan.selections[1]? = some s ∧
          d'.readText (Output.pathFor "out" 1 s) = .ok text ∧
          s.patterns = ["x\ny", "z"] ∧ Output.lines text = ["x", "y", "z"] ∧
          Output.lines text ≠ s.patterns := by
  obtain ⟨d', hwritten⟩ := exists_written_twoLinePlan
  refine ⟨by decide +kernel, value_planFromBuild_twoLineCases, d', hwritten,
    ⟨.exclusion, ["x\ny", "z"]⟩, _, rfl, Output.readText_pathFor hwritten rfl, rfl, ?_, ?_⟩
  · decide
  · decide

end Options

end TestLanes
