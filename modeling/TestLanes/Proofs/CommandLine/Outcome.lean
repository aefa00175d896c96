import TestLanes.Proofs.CommandLine.Setup
import TestLanes.Proofs.History.Chain
import TestLanes.Proofs.Output.Lines
import TestLanes.Proofs.Plan.Shape
import TestLanes.Proofs.Summary.RoundTrip

/-!
# What a run leaves behind

A run that is stopped before it writes has left all files as they were, and its output is empty; so
is the output of a run that fails while it writes.  A run that ends well tells what it wrote:
`Shows` is what is in the output about some lanes, in any format, and `Holds` is what is on the disk
about them.  Both are about the same lanes (`Plan.shows_text`, `holds_laneSummaries`), though the
paths in the output are made a second time and are not what the writing gave; `outcome_run` puts
that together for every exit.

The argument goes along the stages of the program.  `Invocation.execute` is cut into settings, plan
and writing in `TestLanes.Proofs.CommandLine.Setup`; here the current directory comes in front and
the output behind.  Each exit code belongs to one stage, so the code tells how far a run has come,
and what it has changed.
-/

namespace TestLanes

open Files (Disk join)
open History (Store StoredBuild)
open Options (value_planFor_of_compute value_planWith_eq)
open Plan (Colours Format laneLine laneLines laneSummaries)

/-! ## 1. Lanes in the output

The three formats are treated at once: `Shows` says for each of them what the output has of a list
of lanes.  With lines, the output is the lines of the lanes and nothing else, and cutting it at its
line feeds gives them back if no path has one.  As JSON it is the text of a summary with these
lanes, and reading it gives the summary if its numbers fit in 64 bits.
-/

/-- What the output says of a lane on its line. -/
def LaneSummary.line (colours : Colours) (l : LaneSummary) : String :=
  let place := (l.path.map colours.path.apply).getD ("lane " ++ toString l.index)
  let verb := if l.kind = .inclusion then "includes" else "excludes"
  let noun := if l.patternCount = 1 then "pattern" else "patterns"
  place ++ ": " ++ verb ++ " " ++ colours.count.apply (toString l.patternCount) ++ " " ++ noun

/-- An output lists some lanes: it has a line for each of them and nothing else, or it is the text
of a summary that has them, and that is what is read from it if the numbers have 64 bits. -/
def Shows (format : Format) (colours : Colours) (lanes : List LaneSummary) (output : String) :
    Prop :=
  match format with
  | .lines => output = String.join ((lanes.map (·.line colours)).map (· ++ "\n"))
  | .json => ∃ s : Summary, s.lanes = lanes ∧ output = Json.compact s.toJson ++ "\n" ∧
      (s.Fits → Summary.read output = some s)
  | .jsonPretty => ∃ s : Summary, s.lanes = lanes ∧ output = Json.pretty s.toJson ++ "\n" ∧
      (s.Fits → Summary.read output = some s)

namespace Plan

theorem laneSummaries_eq (directory : Option String) (lane : Nat) (selections : List Selection) :
    laneSummaries directory lane selections = (selections.zipIdx lane).map fun q =>
      ⟨q.2, q.1.kind, q.1.patterns.length, directory.map fun d => Output.pathFor d q.2 q.1⟩ := by
  induction selections generalizing lane with
  | nil => rfl
  | cons s selections ih => rw [laneSummaries, ih, List.zipIdx_cons, List.map_cons]

theorem laneLines_eq (colours : Colours) (directory : Option String) (lane : Nat)
    (selections : List Selection) : laneLines colours directory lane selections
      = String.join (((laneSummaries directory lane selections).map (·.line colours)).map
          (· ++ "\n")) := by
  induction selections generalizing lane with
  | nil => rfl
  | cons s selections ih =>
    have hline : laneLine colours directory lane s = LaneSummary.line colours ⟨lane, s.kind,
        s.patterns.length, directory.map fun d => Output.pathFor d lane s⟩ ++ "\n" := by
      cases directory <;> simp [laneLine, LaneSummary.line, Selection.includes]
    rw [laneLines, ih, hline]
    simp [laneSummaries]

/-- **The text of a plan lists its lanes**, in any format. -/
theorem shows_text (p : Plan) (format : Format) (colours : Colours) (directory : Option String) :
    Shows format colours (laneSummaries directory 0 p.selections)
      (p.text format colours directory) := by
  cases format with
  | lines => exact laneLines_eq colours directory 0 p.selections
  | json =>
    refine ⟨p.summary directory, rfl, rfl, fun hfits => ?_⟩
    obtain ⟨-, hcompact, -, -⟩ := Summary.read_written hfits
    exact hcompact
  | jsonPretty =>
    refine ⟨p.summary directory, rfl, rfl, fun hfits => ?_⟩
    obtain ⟨-, -, -, hpretty⟩ := Summary.read_written hfits
    exact hpretty

end Plan

theorem LaneSummary.lineFeed_line {colours : Colours} (hcolours : colours = {} ∨ colours = .vivid)
    {l : LaneSummary} (hpath : ∀ path, l.path = some path → '\n' ∉ path.toList) :
    '\n' ∉ (l.line colours).toList := by
  have hnumber : ∀ n : Nat, '\n' ∉ (toString n).toList := by
    intro n
    rw [Nat.toString_eq_repr, Nat.toList_repr]
    exact Text.notMem_toDigits (by decide) n
  have hpaint : ∀ text : String, '\n' ∉ text.toList →
      '\n' ∉ (colours.path.apply text).toList ∧ '\n' ∉ (colours.count.apply text).toList := by
    intro text htext
    rcases hcolours with rfl | rfl <;> simp [Plan.Paint.apply, Colours.vivid, htext]
  have hcount := (hpaint _ (hnumber l.patternCount)).2
  have hplace : '\n' ∉
      ((l.path.map colours.path.apply).getD ("lane " ++ toString l.index)).toList := by
    cases hl : l.path with
    | none =>
      rw [Option.map_none, Option.getD_none, String.toList_append, List.mem_append, not_or]
      exact ⟨by decide, hnumber l.index⟩
    | some path => exact (hpaint path (hpath path hl)).1
  have hverb : '\n' ∉ (if l.kind = .inclusion then "includes" else "excludes").toList := by
    split <;> decide
  have hnoun : '\n' ∉ (if l.patternCount = 1 then "pattern" else "patterns").toList := by
    split <;> decide
  unfold LaneSummary.line
  simp only [String.toList_append, List.mem_append, not_or]
  exact ⟨⟨⟨⟨⟨⟨hplace, by decide⟩, hverb⟩, by decide⟩, hcount⟩, by decide⟩, hnoun⟩

theorem Plan.lines_laneLines {colours : Colours} (hcolours : colours = {} ∨ colours = .vivid)
    {directory : String} (hdirectory : '\n' ∉ directory.toList) (selections : List Selection) :
    Output.lines (laneLines colours (some directory) 0 selections)
      = (laneSummaries (some directory) 0 selections).map (·.line colours) := by
  rw [laneLines_eq]
  refine (Output.lines_fileText_eq_iff ⟨.inclusion, _⟩).mpr fun line hline => ?_
  obtain ⟨l, hl, rfl⟩ := List.mem_map.mp hline
  rw [laneSummaries_eq] at hl
  obtain ⟨⟨s, lane⟩, -, rfl⟩ := List.mem_map.mp hl
  refine LaneSummary.lineFeed_line hcolours fun path hpath => ?_
  obtain rfl : Output.pathFor directory lane s = path := Option.some.inj hpath
  intro hfeed
  rcases Files.mem_join hfeed with hfeed | hfeed | hfeed
  · exact hdirectory hfeed
  · exact absurd hfeed (by decide)
  · exact Output.notMem_fileName s lane (by decide) (by decide) hfeed

/-! ## 2. Lanes on the disk

`Holds` is about the directory as it is afterwards.  There is one summary for each lane; it has the
lane's number, kind and number of patterns, and its path leads to a file with the patterns of the
lane; and the lane files of the directory are these, none missing and no others.  The summaries are
determined by the directory and the selections, so two lists that both describe them are the same
(`Holds.eq_laneSummaries`).
-/

/-- A directory holds the lanes of a plan, and `lanes` says so. -/
structure Holds (d : Disk) (directory : String) (selections : List Selection)
    (lanes : List LaneSummary) : Prop where
  /-- There is one entry for each lane. -/
  length : lanes.length = selections.length
  /-- The entry of a lane has its number and the number of its patterns, and the path of a file that
  has its kind in the name and its patterns in the text, in order. -/
  entry : ∀ (k : Nat) (s : Selection), selections[k]? = some s → ∃ name,
    name = "split." ++ toString k ++ "." ++ s.kind.name ++ ".txt" ∧
    lanes[k]? = some ⟨k, s.kind, s.patterns.length, some (join directory name)⟩ ∧
    d.readText (join directory name) = .ok (String.join (s.patterns.map (· ++ "\n")))
  /-- These are the lane files in the directory: none is missing, and there are no others. -/
  files : ∃ es, d.list directory = .ok es ∧
    ((es.filter fun e => Output.isLaneFile e.1).map (·.1)).Perm
      (selections.zipIdx.map fun q => q.1.fileName q.2)

/-- **A plan that is written is on the disk as its summaries say.** -/
theorem holds_laneSummaries {d d' : Disk} {directory : String} {selections : List Selection}
    (h : (Output.writeSelections d directory selections).value = (.ok (), d')) :
    Holds d' directory selections (laneSummaries (some directory) 0 selections) := by
  refine ⟨?_, ?_, ?_⟩
  · rw [Plan.laneSummaries_eq, List.length_map, List.length_zipIdx]
  · intro k s hs
    refine ⟨s.fileName k, rfl, ?_, Output.readText_pathFor h hs⟩
    rw [Plan.laneSummaries_eq, List.getElem?_map, List.getElem?_zipIdx, hs]
    simp [Output.pathFor]
  · obtain ⟨es, es', -, hes', hrun⟩ := Output.writeSelections_eq_ok h
    refine ⟨es', hes', ?_⟩
    have hnames := (Output.run_steps hrun).map (·.1)
    rwa [Output.laneFiles, List.map_map] at hnames

/-- What is said of the lanes that a directory holds follows from the directory and the plan. -/
theorem Holds.eq_laneSummaries {d : Disk} {directory : String} {selections : List Selection}
    {lanes : List LaneSummary} (h : Holds d directory selections lanes) :
    lanes = laneSummaries (some directory) 0 selections := by
  refine List.ext_getElem? fun k => ?_
  rw [Plan.laneSummaries_eq, List.getElem?_map, List.getElem?_zipIdx]
  cases hs : selections[k]? with
  | none =>
    rw [List.getElem?_eq_none_iff, ← h.length] at hs
    exact List.getElem?_eq_none_iff.mpr hs
  | some s =>
    obtain ⟨name, rfl, hlane, -⟩ := h.entry k s hs
    rw [hlane]
    simp [Output.pathFor, Selection.fileName]

namespace CommandLine

/-! ## 3. What comes out of a text

An output without bounds takes every text.  One that breaks off takes the front of a text that is
too long for it, and all others.
-/

namespace Surroundings

variable {s : Surroundings} {text : String}

theorem cuts_iff : s.cuts text = true ↔ ∃ room, s.room = some room ∧ room < text.length := by
  unfold cuts
  cases s.room <;> simp

theorem shown_of_cuts {room : Nat} (h : s.room = some room) :
    (s.shown text).toList = text.toList.take room := by
  rw [shown, h, String.toList_ofList]

theorem length_shown_le {room : Nat} (h : s.room = some room) (text : String) :
    (s.shown text).toList.length ≤ room := by
  rw [shown_of_cuts h, List.length_take]
  exact Nat.min_le_left _ _

theorem shown_of_not_cuts (h : ¬ s.cuts text = true) : s.shown text = text := by
  cases hroom : s.room with
  | none => rw [shown, hroom]
  | some room =>
    have hfits : text.toList.length ≤ room := by
      rw [String.length_toList]
      exact Nat.le_of_not_lt fun hlt => h (cuts_iff.mpr ⟨room, hroom, hlt⟩)
    rw [← String.toList_inj, shown_of_cuts hroom, List.take_of_length_le hfits]

end Surroundings

/-! ## 4. Runs

The faults of the settings and of the plan have codes of their own, and so has a fault of writing;
none of them is the code of an output that breaks off.

A command comes to its output exactly if every stage succeeds (`executeIn_isOk_iff`).  If it does
not, the fault is that of the first stage that fails, and only a fault of writing can have changed
the disk (`executeIn_eq_error`).  With `outcome_of_executeIn` the outcome of a run is read off from
what the command came to, without a look at the log: once for a command that fails (`run_of_error`)
and once for one that has something to show (`run_of_ok`).
-/

theorem Invocation.misses_eq_none_iff {i : Invocation} {s : Surroundings} :
    i.misses s = none ↔ (i.workspace = none → s.currentDirectory = none) := by
  unfold misses
  cases i.workspace <;> simp

theorem code_of_setup {i : Invocation} {d : Disk} {f : Fault} (h : (i.setup d).value = .error f) :
    f.code = codeSetup := by
  unfold Invocation.setup at h
  rw [Logged.value_bind] at h
  split at h
  · cases h
    rfl
  · split at h <;> cases h
    rfl

theorem code_of_plan {i : Invocation} {d : Disk} {o : Options} {f : Fault}
    (h : (i.plan d o).value = .error f) : f.code ∈ [codeHistory, codeAbort] := by
  unfold Invocation.plan at h
  split at h
  · cases h
    simp [Fault.code]
  · rw [Logged.value_bind] at h
    split at h
    · next e _ =>
      cases h
      cases e <;> simp [Fault.ofCurrent, Fault.code]
    · rw [Logged.value_bind] at h
      split at h <;> cases h
      simp [Fault.code]

/-- A command comes to its output exactly if the workspace has a path, its settings are right, its
plan is made and the plan is written. -/
theorem executeIn_isOk_iff {i : Invocation} {s : Surroundings} {d : Disk} :
    (i.executeIn s d).value.1.isOk = true ↔ (i.workspace = none → s.currentDirectory = none) ∧
      ∃ setup plan, (i.setup d).value = .ok setup ∧ (i.plan d setup.options).value = .ok plan ∧
        (Output.writeSelections d setup.directory plan.selections).value.1 = .ok () := by
  rw [← Invocation.misses_eq_none_iff, Invocation.executeIn]
  cases hmisses : i.misses s with
  | some e => exact iff_of_false Bool.false_ne_true fun h => nomatch h.1
  | none =>
    rw [and_iff_right rfl]
    rcases hexecuted : (i.execute d).value with ⟨r, d'⟩
    constructor
    · intro hok
      cases r with
      | error f => cases hok
      | ok made =>
        obtain ⟨setup, hsetup, hplan, hdirectory, hwritten⟩ := execute_eq_ok hexecuted
        exact ⟨setup, made.1, hsetup, hplan, by rw [← hdirectory, hwritten]⟩
    · rintro ⟨setup, plan, hsetup, hplan, hwritten⟩
      rcases execute_cases hexecuted with ⟨f, -, -, hstopped⟩ | ⟨setup', plan', hsetup', hplan', hr⟩
      · rcases hstopped with hfault | ⟨setup', hsetup', hfault⟩
        · rw [hsetup] at hfault
          cases hfault
        · obtain rfl := Except.ok.inj (hsetup.symm.trans hsetup')
          rw [hplan] at hfault
          cases hfault
      · obtain rfl := Except.ok.inj (hsetup.symm.trans hsetup')
        obtain rfl := Except.ok.inj (hplan.symm.trans hplan')
        obtain ⟨w, hw, ⟨e, rfl, -⟩ | ⟨-, rfl⟩⟩ := hr
        · rw [hw] at hwritten
          cases hwritten
        · rfl

/-- A command that does not come to its output fails in writing, or has touched nothing. -/
theorem executeIn_eq_error {i : Invocation} {s : Surroundings} {d d' : Disk} {f : Fault}
    (h : (i.executeIn s d).value = (.error f, d')) :
    f.code ∈ [codeSetup, codeHistory, codeAbort] ∧ d' = d ∨ f.code = codeWrite := by
  unfold Invocation.executeIn at h
  split at h
  · cases h
    exact .inl ⟨List.mem_cons_self, rfl⟩
  · rcases execute_cases h with ⟨_, hf, rfl, hstopped⟩ | ⟨setup, plan, -, -, w, -, hr⟩
    · cases hf
      refine .inl ⟨?_, rfl⟩
      rcases hstopped with hfault | ⟨setup, -, hfault⟩
      · rw [code_of_setup hfault]
        decide
      · exact List.mem_cons_of_mem _ (code_of_plan hfault)
    · rcases hr with ⟨e, -, hf⟩ | ⟨-, hf⟩ <;> cases hf
      exact .inr rfl

theorem executeIn_eq_ok {i : Invocation} {s : Surroundings} {d d' : Disk} {plan : Plan}
    {directory : String} (h : (i.executeIn s d).value = (.ok (plan, directory), d')) :
    ∃ setup, (i.setup d).value = .ok setup ∧ (i.plan d setup.options).value = .ok plan ∧
      directory = setup.directory ∧
      (Output.writeSelections d directory plan.selections).value = (.ok (), d') := by
  unfold Invocation.executeIn at h
  split at h
  · cases h
  · exact execute_eq_ok h

/-- A run that is not stopped by its arguments ends as the command does. -/
theorem outcome_of_executeIn {i : Invocation} {s : Surroundings} {d d' : Disk}
    {r : Except Fault (Plan × String)} (h : (i.executeIn s d).value = (r, d'))
    (env : Environment) :
    (i.run env s d).disk = d' ∧
      match r with
      | .error f => (i.run env s d).code = f.code ∧ (i.run env s d).output = ""
      | .ok (plan, directory) => ∃ colours, (colours = {} ∨ colours = .vivid) ∧
          let text := plan.text i.format colours (some directory)
          (i.run env s d).code = (if s.cuts text then codeOutput else codeOk) ∧
            (i.run env s d).output = s.shown text := by
  unfold Invocation.run
  cases r with
  | error f =>
    dsimp only
    rw [h]
    exact ⟨rfl, rfl, rfl⟩
  | ok made =>
    dsimp only
    rw [h]
    dsimp only
    generalize hcolours : (if isColoured i.colour env s.output = true then Plan.Colours.vivid
      else {}) = colours
    have heither : colours = {} ∨ colours = .vivid := by
      rw [← hcolours]
      split
      · exact Or.inr rfl
      · exact Or.inl rfl
    split
    · next hcuts => exact ⟨rfl, colours, heither, (if_pos hcuts).symm, rfl⟩
    · next hcuts => exact ⟨rfl, colours, heither, (if_neg hcuts).symm, rfl⟩

/-- A run never says more than there is room for. -/
theorem length_output_le (i : Invocation) (env : Environment) {s : Surroundings} {room : Nat}
    (h : s.room = some room) (d : Disk) : (i.run env s d).output.toList.length ≤ room := by
  rcases hexecuted : (i.executeIn s d).value with ⟨r, d'⟩
  obtain ⟨-, hend⟩ := outcome_of_executeIn hexecuted env
  cases r with
  | error f => exact hend.2 ▸ Nat.zero_le _
  | ok made =>
    obtain ⟨colours, -, -, houtput⟩ := hend
    exact houtput ▸ Surroundings.length_shown_le h _

/-- **A run that fails before its output** says nothing, and only if it fails in writing the files
may be others. -/
theorem run_of_error {i : Invocation} {s : Surroundings} {d d' : Disk} {f : Fault}
    (h : (i.executeIn s d).value = (.error f, d')) (env : Environment) :
    (i.run env s d).output = "" ∧
      (i.run env s d).code ∈ [codeSetup, codeHistory, codeWrite, codeAbort] ∧
      ((i.run env s d).code ∈ [codeSetup, codeHistory, codeAbort] → (i.run env s d).disk = d) := by
  obtain ⟨hdisk, hcode, houtput⟩ := outcome_of_executeIn h env
  rw [hcode, hdisk]
  refine ⟨houtput, ?_⟩
  rcases executeIn_eq_error h with ⟨hstopped, rfl⟩ | hwrite
  · have hmore : ∀ c ∈ [codeSetup, codeHistory, codeAbort],
        c ∈ [codeSetup, codeHistory, codeWrite, codeAbort] := by decide
    exact ⟨hmore _ hstopped, fun _ => rfl⟩
  · rw [hwrite]
    exact ⟨by decide, fun hstopped => absurd hstopped (by decide)⟩

/-- **A run that comes to its output** has written its plan, and a text lists the lanes.  The text
comes out as a whole, or its front if there is no room for more. -/
theorem run_of_ok {i : Invocation} {s : Surroundings} {d d' : Disk} {plan : Plan}
    {directory : String} (h : (i.executeIn s d).value = (.ok (plan, directory), d'))
    (env : Environment) : ∃ setup lanes colours text,
      (i.setup d).value = .ok setup ∧ (i.plan d setup.options).value = .ok plan ∧
      Holds (i.run env s d).disk setup.directory plan.selections lanes ∧
      (colours = {} ∨ colours = .vivid) ∧ Shows i.format colours lanes text ∧
      (i.format = .lines → '\n' ∉ setup.directory.toList →
        Output.lines text = lanes.map (·.line colours)) ∧
      ((i.run env s d).code = codeOk ∧ (i.run env s d).output = text ∨
        (i.run env s d).code = codeOutput ∧ ∃ room, s.room = some room ∧ room < text.length ∧
          (i.run env s d).output.toList = text.toList.take room) := by
  obtain ⟨hdisk, colours, hcolours, hcode, houtput⟩ := outcome_of_executeIn h env
  obtain ⟨setup, hsetup, hplan, rfl, hwritten⟩ := executeIn_eq_ok h
  refine ⟨setup, _, colours, _, hsetup, hplan, hdisk ▸ holds_laneSummaries hwritten, hcolours,
    plan.shows_text i.format colours (some setup.directory), fun hformat hfeed => ?_, ?_⟩
  · rw [hformat]
    exact Plan.lines_laneLines hcolours hfeed plan.selections
  · by_cases hcuts : s.cuts (plan.text i.format colours (some setup.directory)) = true
    · obtain ⟨room, hbound, hless⟩ := Surroundings.cuts_iff.mp hcuts
      exact .inr ⟨hcode.trans (if_pos hcuts), room, hbound, hless,
        houtput ▸ Surroundings.shown_of_cuts hbound⟩
    · exact .inl ⟨hcode.trans (if_neg hcuts), houtput.trans (Surroundings.shown_of_not_cuts hcuts)⟩

/-- **Every run ends in one of six ways.**  Take any arguments that are a command, with any
environment, any files and whatever else surrounds it.  A run that is stopped by the current
directory, by the settings, by the history or by too large numbers has left all files as they were,
and its output is empty.  The output is empty, too, if the writing fails.  Else the plan has been
made and written, and what the output lists are exactly its lanes, in order and in any format, as
they are in the directory; a run ends so exactly if nothing fails.  If only the output breaks off,
the files are there all the same, and what came out is the front of such a listing, as much of it as
there was room for. -/
theorem outcome_run {args : List String} {env : Environment} {i : Invocation}
    (hread : Invocation.read args env = .ok i) (s : Surroundings) (d : Disk) :
    let o := run args env s d
    let arrives := (i.workspace = none → s.currentDirectory = none) ∧
      ∃ setup plan, (i.setup d).value = .ok setup ∧ (i.plan d setup.options).value = .ok plan ∧
        (Output.writeSelections d setup.directory plan.selections).value.1 = .ok ()
    o.code ∈ [codeOk, codeSetup, codeHistory, codeWrite, codeAbort, codeOutput] ∧
    (o.code ∈ [codeSetup, codeHistory, codeAbort] → o.disk = d ∧ o.output = "") ∧
    (o.code = codeWrite → o.output = "") ∧
    (∀ room, s.room = some room → o.output.toList.length ≤ room) ∧
    (o.code ∈ [codeOk, codeOutput] ↔ arrives) ∧
    (s.room = none → (o.code = codeOk ↔ arrives)) ∧
    (o.code = codeOk → ∃ setup plan lanes colours,
      (i.setup d).value = .ok setup ∧ (i.plan d setup.options).value = .ok plan ∧
      Holds o.disk setup.directory plan.selections lanes ∧
      (colours = {} ∨ colours = .vivid) ∧ Shows i.format colours lanes o.output ∧
      (i.format = .lines → '\n' ∉ setup.directory.toList →
        Output.lines o.output = lanes.map (·.line colours))) ∧
    (o.code = codeOutput → ∃ setup plan lanes colours text room,
      (i.setup d).value = .ok setup ∧ (i.plan d setup.options).value = .ok plan ∧
      Holds o.disk setup.directory plan.selections lanes ∧
      (colours = {} ∨ colours = .vivid) ∧ Shows i.format colours lanes text ∧
      s.room = some room ∧ room < text.length ∧
      o.output.toList = text.toList.take room) := by
  intro o arrives
  have ho : o = i.run env s d := by
    show run args env s d = _
    unfold run
    rw [hread]
  have harrives : (i.executeIn s d).value.1.isOk = true ↔ arrives := executeIn_isOk_iff
  rw [← harrives]
  have hroom : ∀ room, s.room = some room → o.output.toList.length ≤ room :=
    fun _ h => ho ▸ length_output_le i env h d
  rcases hexecuted : (i.executeIn s d).value with ⟨r, d'⟩
  cases r with
  | error f =>
    obtain ⟨houtput, hcode, hsame⟩ := run_of_error hexecuted env
    rw [← ho] at houtput hcode hsame
    have hothers : ∀ c ∈ [codeSetup, codeHistory, codeWrite, codeAbort],
        c ∉ [codeOk, codeOutput] ∧
          c ∈ [codeOk, codeSetup, codeHistory, codeWrite, codeAbort, codeOutput] := by decide
    obtain ⟨hnot, hmem⟩ := hothers _ hcode
    have hnotOk : o.code ≠ codeOk := fun h => hnot (h ▸ List.mem_cons_self)
    have hnotOutput : o.code ≠ codeOutput := fun h => hnot (by rw [h]; decide)
    exact ⟨hmem, fun hstopped => ⟨hsame hstopped, houtput⟩, fun _ => houtput, hroom,
      iff_of_false hnot Bool.false_ne_true, fun _ => iff_of_false hnotOk Bool.false_ne_true,
      fun h => absurd h hnotOk, fun h => absurd h hnotOutput⟩
  | ok made =>
    obtain ⟨setup, lanes, colours, text, hsetup, hplan, hholds, hcolours, hshows, hlines, hend⟩ :=
      run_of_ok hexecuted env
    rw [← ho] at hholds hend
    have hok : (Except.ok made : Except Fault (Plan × String)).isOk = true := rfl
    rcases hend with ⟨hcode, rfl⟩ | ⟨hcode, room, hbound, hless, houtput⟩
    · -- nothing has failed
      rw [hcode]
      exact ⟨by decide, fun h => absurd h (by decide), fun h => absurd h (by decide), hroom,
        iff_of_true (by decide) hok, fun _ => iff_of_true rfl hok,
        fun _ => ⟨setup, _, lanes, colours, hsetup, hplan, hholds, hcolours, hshows, hlines⟩,
        fun h => absurd h (by decide)⟩
    · -- only the output has broken off
      rw [hcode]
      exact ⟨by decide, fun h => absurd h (by decide), fun h => absurd h (by decide), hroom,
        iff_of_true (by decide) hok,
        fun hnone => absurd (hbound.symm.trans hnone) (Option.some_ne_none room),
        fun h => absurd h (by decide), fun _ => ⟨setup, _, lanes, colours, text, room, hsetup,
          hplan, hholds, hcolours, hshows, hbound, hless, houtput⟩⟩

/-! ## 5. A run with two lanes

The history has one build, and its report has three classes.  The heaviest one goes to the first
lane, the other two to the second.

The stages are evaluated one at a time, each as a lemma of its own: the settings are the built-in
ones, the current build is the one after the recorded build, and the entities are spread over two
lanes.  What is on the disk then follows from `Holds` and needs no evaluation.
-/

/-- A disk with the report of a build, and with a lane file of an earlier plan. -/
def recordedDisk : Disk where
  root := .directory [
    ("h", .directory [("branches", .directory [("b", .directory [("builds", .directory [
      ("1", .directory [
        ("build.toml", .file "status = \"success\"\n".toUTF8),
        ("results", .directory [("r.xml", .file ("<testcase classname='a.B' name='x' time='5'/>"
          ++ "<testcase classname='a.C' name='x' time='3'/>"
          ++ "<testcase classname='a.D' name='x' time='3'/>").toUTF8)])])])])])]),
    ("o", .directory [("notes.txt", .file "keep\n".toUTF8),
      ("split.7.include.txt", .file "old\n".toUTF8)])]
  current := []

def recordedArguments : List String :=
  ["split", "--history-dir", "h", "--branch", "b", "--workspace", "w", "--out-dir", "o",
    "--parallelism", "count:2"]

def recordedInvocation : Invocation where
  verbose := false
  colour := .auto
  historyDirectory := "h"
  branch := "b"
  build := none
  changeTarget := none
  workspace := some "w"
  outDirectory := some "o"
  settingsFile := none
  profile := none
  parallelism := some (.count 2)
  granularity := none
  inclusions := false
  stage := none
  estimate := false
  format := .lines

def recordedOptions : Options := { parallelism := .count 2 }

def recordedStore : Store := ⟨recordedDisk, "h"⟩

def recordedBuild : StoredBuild where
  branch := ⟨"b", "h/branches/b", none, [1]⟩
  number := 1
  changeTarget := none
  metadata := { status := .success }

/-- The build after it, which the plan is for. -/
def nextBuild : StoredBuild := { recordedBuild with number := 2, metadata := {} }

def recordedCases : List Report.Case :=
  [{ className := "a.B", name := "x", duration := .ofNat 5000 },
    { className := "a.C", name := "x", duration := .ofNat 3000 },
    { className := "a.D", name := "x", duration := .ofNat 3000 }]

def recordedEntities : EntityMap := .gather (recordedCases.map (Granularity.entityOf .testClass))

/-- The classes of the report on two lanes. -/
def recordedPartition : Partition where
  placements := [⟨⟨"a.B", .ofNat 5000, .testClass⟩, 0⟩, ⟨⟨"a.C", .ofNat 3000, .testClass⟩, 1⟩,
    ⟨⟨"a.D", .ofNat 3000, .testClass⟩, 1⟩]
  totals := [.ofNat 5000, .ofNat 6000]

def recordedSelections : List Selection := recordedPartition.selections false

theorem compute_recordedEntities : Partition.compute recordedEntities 2 = .ok recordedPartition :=
  Partition.compute_of_pairwise
    (s := ⟨[⟨.ofNat 5000, 0⟩, ⟨.ofNat 6000, 1⟩], recordedPartition.placements.reverse⟩) (by decide)
    (by decide) (by decide) (by decide)

theorem currentBuild_recordedStore :
    (recordedStore.currentBuild "b" none).value = .ok nextBuild := by
  have hbranch : (recordedStore.branch "b").value = .ok recordedBuild.branch :=
    Store.branch_of_list none (by decide +kernel) rfl (by decide +kernel)
      (List.pairwise_singleton _ _)
  rw [Store.value_currentBuild_none hbranch]
  decide +kernel

theorem exists_plan_recordedDisk : ∃ stats,
    (recordedInvocation.plan recordedDisk recordedOptions).value
      = .ok ⟨.testClass, recordedSelections, some stats, .reference "b #1" none⟩ := by
  have hfound : (recordedStore.archive.locate 20 [recordedStore.archive.targetFinder]
      nextBuild).value.found = some ⟨recordedBuild, .ofCases "b #1" recordedCases⟩ := by
    decide +kernel
  have hextract : Granularity.extract .testClass (.ofCases "b #1" recordedCases)
      = .ok recordedEntities := (Granularity.extract_ofCases _ _ _).trans (if_neg (by decide))
  have hentities : ∀ workspace, recordedOptions.entitiesFrom recordedStore.archive
      (some ⟨recordedBuild, .ofCases "b #1" recordedCases⟩) workspace = .ok recordedEntities :=
    fun _ => hextract
  obtain ⟨stats, hstats⟩ : ∃ stats, recordedPartition.stats.toOption = some stats :=
    Option.isSome_iff_exists.mp (by decide +kernel)
  have hstore : Store.ofRoot recordedDisk recordedInvocation.historyDirectory = .ok recordedStore :=
    rfl
  refine ⟨stats, value_plan hstore currentBuild_recordedStore ?_⟩
  refine (value_planWith_eq recordedOptions hfound _).trans ?_
  rw [hentities]
  exact value_planFor_of_compute _ rfl compute_recordedEntities (toOption_eq_some_iff.mp hstats)

theorem setup_recordedDisk :
    (recordedInvocation.setup recordedDisk).value = .ok ⟨recordedOptions, "o"⟩ := by
  decide +kernel

/-- There is one setup and one plan, so what a disk is said to hold are the lanes of this plan. -/
theorem of_holds_recordedDisk {setup : Setup} {plan : Plan} {d : Disk} {shown : List LaneSummary}
    (hsetup : (recordedInvocation.setup recordedDisk).value = .ok setup)
    (hplan : (recordedInvocation.plan recordedDisk setup.options).value = .ok plan)
    (hholds : Holds d setup.directory plan.selections shown) :
    shown = laneSummaries (some "o") 0 recordedSelections ∧ setup.directory = "o" ∧
      Holds d "o" recordedSelections shown := by
  obtain rfl := Except.ok.inj (setup_recordedDisk.symm.trans hsetup)
  obtain ⟨stats, hstats⟩ := exists_plan_recordedDisk
  obtain rfl := Except.ok.inj (hstats.symm.trans hplan)
  exact ⟨hholds.eq_laneSummaries, rfl, hholds⟩

/-- The run lists both lanes as they are on the disk, where the earlier one is gone.  If the output
breaks off in the first line, they are there all the same. -/
theorem outcome_run_recordedDisk :
    let o := run recordedArguments [] {} recordedDisk
    let broken := run recordedArguments [] { room := some 30 } recordedDisk
    let lanes : List LaneSummary := [⟨0, .exclusion, 4, some "o/split.0.exclude.txt"⟩,
      ⟨1, .exclusion, 2, some "o/split.1.exclude.txt"⟩]
    Invocation.read recordedArguments [] = .ok recordedInvocation ∧
      o.code = codeOk ∧ Holds o.disk "o" recordedSelections lanes ∧
      (∃ colours, Output.lines o.output = lanes.map (·.line colours)) ∧
      lanes.map (·.line {}) = ["o/split.0.exclude.txt: excludes 4 patterns",
        "o/split.1.exclude.txt: excludes 2 patterns"] ∧
      broken.code = codeOutput ∧ Holds broken.disk "o" recordedSelections lanes := by
  intro o broken lanes
  have hread : Invocation.read recordedArguments [] = .ok recordedInvocation := by decide +kernel
  have hwritten : (Output.writeSelections recordedDisk "o" recordedSelections).value.1 = .ok () := by
    decide +kernel
  have hlanes : laneSummaries (some "o") 0 recordedSelections = lanes := by decide
  obtain ⟨stats, hplan⟩ := exists_plan_recordedDisk
  obtain ⟨-, -, -, -, -, hends, hend, -⟩ := outcome_run hread {} recordedDisk
  have hok : o.code = codeOk :=
    (hends rfl).mpr ⟨fun _ => rfl, _, _, setup_recordedDisk, hplan, hwritten⟩
  obtain ⟨setup, plan, shown, colours, hsetup, hplan', hholds, -, -, hlines⟩ := hend hok
  obtain ⟨hshown, hdirectory, hholds⟩ := of_holds_recordedDisk hsetup hplan' hholds
  obtain rfl := hshown.trans hlanes
  obtain ⟨-, -, -, hroom, harrives, -, hwhole, hcut⟩ :=
    outcome_run hread { room := some 30 } recordedDisk
  have hcodes : broken.code ∈ [codeOk, codeOutput] :=
    harrives.mpr ⟨fun _ => rfl, _, _, setup_recordedDisk, hplan, hwritten⟩
  have hcode : broken.code = codeOutput := by
    refine (List.mem_pair.mp hcodes).resolve_left fun hcode => ?_
    -- the whole listing has no room
    obtain ⟨setup, plan, shown, colours, hsetup, hplan, hholds, hcolours, hshows, -⟩ := hwhole hcode
    obtain rfl := (of_holds_recordedDisk hsetup hplan hholds).1.trans hlanes
    have hshort := hroom 30 rfl
    rw [show broken.output = _ from hshows] at hshort
    rcases hcolours with rfl | rfl <;> exact absurd hshort (by decide +kernel)
  obtain ⟨setup', plan', shown', -, -, -, hsetup', hplan', hbroken, -⟩ := hcut hcode
  obtain ⟨hshown', -, hbroken⟩ := of_holds_recordedDisk hsetup' hplan' hbroken
  obtain rfl := hshown'.trans hlanes
  exact ⟨hread, hok, hholds, ⟨colours, hlines rfl (by rw [hdirectory]; decide)⟩, by decide, hcode,
    hbroken⟩

/-- Without a workspace the path of the current directory is needed. -/
example : (run ["split", "--history-dir", "h", "--branch", "b"] []
    { currentDirectory := some .unknown } recordedDisk).code = codeSetup := by decide +kernel

end CommandLine

end TestLanes
