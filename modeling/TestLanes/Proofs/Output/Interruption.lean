import TestLanes.Proofs.Output.Directory

/-!
# A plan that is not written to its end

Writing may stop anywhere: the listing of the directory breaks off, a file is not removed, a file is
not written.  What is left is then never a mixture of two plans (`failed_write_unmixed`), because
all old lane files are gone before the first new one is written.

* `Faults` says where the system fails, and `writeWith` writes a plan with such faults; the faults
  that a disk has by itself are among them (`value_writeSelections`).
* A run that stops has taken the steps before the one that failed (`exists_taken`).  Among
  removals it leaves a part of what was there (`sublist_of_run_removals`); among writings it leaves
  the files of the lanes before (`exists_lane_of_run_writes`).
-/

namespace TestLanes.Output

open Files (Disk Entries Entry find?)

/-! ## 1. Faults

A fault is an input: the system may refuse any step, and may break off the listing after any number
of entries.  A disk by itself refuses those steps whose names or paths no system takes, which is one
choice of these inputs (`value_writeSelections`), and every statement about all faults holds of it.
-/

/-- Where the system fails: the number of entries after which the listing of the directory breaks
off, if it does, and the steps that are refused. -/
structure Faults where
  listing : Option Nat := none
  refuses : Step → Bool

namespace Faults

/-- The steps that are tried.  Files are removed while the directory is listed, and none is written
before all of it is listed. -/
def steps (f : Faults) (es : Entries) (selections : List Selection) : List Step :=
  match f.listing with
  | none => Output.steps es selections
  | some n => removals (es.take n)

/-- How writing ends if `failed` is the first step that is not taken. -/
def result (f : Faults) (directory : String) : Option Step → Except WriteError Unit
  | some s => .error (s.fault directory)
  | none => if f.listing.isSome then .error (.readDirectory directory) else .ok ()

end Faults

/-- Writes the files of all lanes to a directory on a system that fails in this way. -/
def writeWith (f : Faults) (d : Disk) (directory : String) (selections : List Selection) :
    Except WriteError Unit × Disk :=
  match d.makeDirectories directory with
  | (.error _, d) => (.error (.createDirectory directory), d)
  | (.ok (), d) =>
    match d.list directory, d.way directory with
    | .ok es, .ok way =>
      let (es', failed) := run f.refuses es (f.steps es selections)
      (f.result directory failed, d.alter way fun _ => es')
    | _, _ => (.error (.readDirectory directory), d)

/-- A disk refuses the steps that need a name or a path that no system takes, and nothing else. -/
theorem value_writeSelections (d : Disk) (directory : String) (selections : List Selection) :
    (writeSelections d directory selections).value
      = writeWith { refuses := Step.isRefused directory } d directory selections := by
  unfold writeSelections writeWith
  rcases d.makeDirectories directory with ⟨_ | ⟨⟩, made⟩
  · rfl
  · dsimp only
    cases made.list directory with
    | error _ => rfl
    | ok es =>
      cases made.way directory with
      | error _ => rfl
      | ok way =>
        dsimp only [Faults.steps, Faults.result]
        cases (run (Step.isRefused directory) es (steps es selections)).2 <;> rfl

/-! ## 2. Runs that stop

A run that stops is a run of the steps before the failed one, all of which are taken; so what is
known of whole runs applies to it.
-/

variable {refuses : Step → Bool} {es es' mid : Entries} {ss ts : List Step} {failed : Option Step}

/-- **A run has taken the steps before the one that failed.** -/
theorem exists_taken (h : run refuses es ss = (es', failed)) :
    ∃ taken left, ss = taken ++ (failed.toList ++ left) ∧ run refuses es taken = (es', none) := by
  induction ss generalizing es with
  | nil =>
    cases h
    exact ⟨[], [], rfl, rfl⟩
  | cons s ss ih =>
    simp only [run] at h
    split at h
    · cases h
      exact ⟨[], ss, rfl, rfl⟩
    · next hfree =>
      obtain ⟨taken, left, rfl, htaken⟩ := ih h
      exact ⟨s :: taken, left, rfl, by rw [run, if_neg hfree, htaken]⟩

theorem run_append_of_taken (h : run refuses es ss = (mid, none)) (ts : List Step) :
    run refuses es (ss ++ ts) = run refuses mid ts := by
  induction ss generalizing es with
  | nil =>
    cases h
    rfl
  | cons s ss ih =>
    simp only [List.cons_append, run] at h ⊢
    split at h
    · cases h
    · next hfree => rw [if_neg hfree, ih h]

theorem run_append_of_failed {s : Step} (h : run refuses es ss = (es', some s)) (ts : List Step) :
    run refuses es (ss ++ ts) = (es', some s) := by
  induction ss generalizing es with
  | nil => cases h
  | cons t ss ih =>
    simp only [List.cons_append, run] at h ⊢
    split at h
    · next hblocked => rw [if_pos hblocked, h]
    · next hfree => rw [if_neg hfree, ih h]

/-- **Removals leave a part of what was there**, wherever they stop. -/
theorem sublist_of_run_removals {names : List String}
    (h : run refuses es (names.map .remove) = (es', failed)) :
    es'.Sublist es ∧ ∀ s, failed = some s → ∃ name, s = .remove name := by
  refine ⟨?_, ?_⟩
  · obtain ⟨taken, left, hsteps, htaken⟩ := exists_taken h
    obtain ⟨removed, rest, -, rfl, -⟩ := List.map_eq_append_iff.mp hsteps
    rw [run_removals htaken]
    exact List.filter_sublist
  · rintro s rfl
    obtain ⟨taken, left, hsteps, -⟩ := exists_taken h
    have hmem : s ∈ names.map Step.remove := by
      rw [hsteps]
      exact List.mem_append_right _ List.mem_cons_self
    obtain ⟨name, -, hname⟩ := List.mem_map.mp hmem
    exact ⟨name, hname.symm⟩

theorem take_writes (k lane : Nat) (selections : List Selection) :
    (writes lane selections).take k = writes lane (selections.take k) := by
  induction selections generalizing k lane with
  | nil => simp [writes]
  | cons s selections ih =>
    cases k with
    | zero => rfl
    | succ k => rw [writes, List.take_succ_cons, List.take_succ_cons, writes, ih]

theorem laneFiles_take (k lane : Nat) (selections : List Selection) :
    laneFiles lane (selections.take k) = (laneFiles lane selections).take k := by
  rw [laneFiles, laneFiles, ← List.map_take]
  congr 1
  induction selections generalizing k lane with
  | nil => simp
  | cons s selections ih =>
    cases k with
    | zero => rfl
    | succ k => simp only [List.take_succ_cons, List.zipIdx_cons, ih]

/-- What fails while a plan is written, after all old files are gone, is the file of a lane, and the
lanes before have theirs. -/
theorem exists_lane_of_run_writes {selections : List Selection} {s : Step}
    (h : run refuses mid (writes 0 selections) = (es', some s)) :
    ∃ (lane : Nat) (selection : Selection), selections[lane]? = some selection ∧
      s = .write (selection.fileName lane) selection ∧
      run refuses mid (writes 0 (selections.take lane)) = (es', none) := by
  obtain ⟨taken, left, hsteps, htaken⟩ := exists_taken h
  have hs : (writes 0 selections)[taken.length]? = some s := by
    rw [hsteps, List.getElem?_append_right (Nat.le_refl _), Nat.sub_self]
    rfl
  rw [writes_eq, List.getElem?_map, List.getElem?_zipIdx, Nat.zero_add, Option.map_map,
    Option.map_eq_some_iff] at hs
  obtain ⟨selection, hselection, rfl⟩ := hs
  refine ⟨taken.length, selection, hselection, rfl, ?_⟩
  rw [← take_writes, hsteps, List.take_left]
  exact htaken

/-! ## 3. Old files or new ones

The steps that are tried are a front of the steps of the plan: all of them, or the removals up to
where the listing breaks off.  A run of a front that stops among the removals leaves a part of the
old files and none of the new ones; one that stops later leaves none of the old ones.
-/

/-- What a plan that ends with a fault leaves of the entries of the directory: all that are no lane
files, and of the lane files either some old ones, or the files of the lanes of the plan before the
one that the fault is about. -/
structure Unmixed (directory : String) (selections : List Selection) (e : WriteError)
    (es es' : Entries) : Prop where
  others : (es'.filter fun x => !isLaneFile x.1) = es.filter fun x => !isLaneFile x.1
  lanes : ((∀ path, e ≠ .writeFile path) ∧
      (es'.filter fun x => isLaneFile x.1).Sublist (es.filter fun x => isLaneFile x.1)) ∨
    ∃ (lane : Nat) (s : Selection), selections[lane]? = some s ∧
      e = .writeFile (pathFor directory lane s) ∧
      (es'.filter fun x => isLaneFile x.1).Perm ((laneFiles 0 selections).take lane)

variable {f : Faults} {directory : String} {selections : List Selection} {e : WriteError}

theorem steps_begin (f : Faults) (es : Entries) (selections : List Selection) :
    f.steps es selections <+: steps es selections := by
  unfold Faults.steps
  split
  · exact List.prefix_rfl
  · next n _ =>
    have hlisted : es.take n <+: es := List.take_prefix n es
    exact ((hlisted.filter _).map _).trans (List.prefix_append _ _)

theorem filter_run_steps (hsteps : ss <+: steps es selections)
    (h : run refuses es ss = (es', failed)) :
    (es'.filter fun x => !isLaneFile x.1) = es.filter fun x => !isLaneFile x.1 := by
  obtain ⟨taken, left, rfl, htaken⟩ := exists_taken h
  exact filter_run (fun s hs => isLaneFile_of_mem_steps
    (hsteps.subset (List.mem_append_left _ hs))) htaken

/-- **Old files or new ones**: which of them is told by the fault. -/
theorem unmixed_of_run (h : run f.refuses es (f.steps es selections) = (es', failed))
    (he : f.result directory failed = .error e) : Unmixed directory selections e es es' := by
  refine ⟨filter_run_steps (steps_begin f es selections) h, ?_⟩
  -- as long as files are removed, what is left is old
  have hold : ∀ {names : List String}, run f.refuses es (names.map .remove) = (es', failed) →
      (failed = none → f.listing ≠ none) → ((∀ path, e ≠ .writeFile path) ∧
        (es'.filter fun x => isLaneFile x.1).Sublist (es.filter fun x => isLaneFile x.1)) := by
    intro names hremoved hlisting
    obtain ⟨hsub, hfailed⟩ := sublist_of_run_removals hremoved
    refine ⟨?_, hsub.filter _⟩
    rintro path rfl
    cases failed with
    | some s =>
      obtain ⟨name, rfl⟩ := hfailed s rfl
      cases he
    | none =>
      rw [Faults.result, if_pos (Option.isSome_iff_ne_none.mpr (hlisting rfl))] at he
      cases he
  cases hlisting : f.listing with
  | some n =>
    rw [Faults.steps, hlisting] at h
    dsimp only at h
    rw [removals_eq] at h
    exact Or.inl (hold h fun _ => by rw [hlisting]; exact nofun)
  | none =>
    rw [Faults.steps, hlisting] at h
    dsimp only at h
    rcases hremoved : run f.refuses es (removals es) with ⟨mid, _ | s⟩
    · rw [steps, run_append_of_taken hremoved] at h
      cases failed with
      | none =>
        rw [Faults.result, hlisting] at he
        cases he
      | some s =>
        obtain ⟨lane, selection, hselection, rfl, hwritten⟩ := exists_lane_of_run_writes h
        cases he
        refine Or.inr ⟨lane, selection, hselection, rfl, ?_⟩
        have hrun : run f.refuses es (steps es (selections.take lane)) = (es', none) := by
          rw [steps, run_append_of_taken hremoved, hwritten]
        rw [← laneFiles_take]
        exact run_steps hrun
    · rw [steps, run_append_of_failed hremoved] at h
      cases h
      rw [removals_eq] at hremoved
      exact Or.inl (hold hremoved nofun)

/-! ## 4. On a disk -/

/-- How writing on a disk can end: before the directory is listed, or after some steps have changed
what is in it. -/
theorem writeWith_cases {d d' : Disk} {r : Except WriteError Unit}
    (h : writeWith f d directory selections = (r, d')) :
    (d' = (d.makeDirectories directory).2 ∧
      (r = .error (.createDirectory directory) ∨ r = .error (.readDirectory directory))) ∨
    ∃ es es' failed, (d.makeDirectories directory).2.list directory = .ok es ∧
      d'.list directory = .ok es' ∧ run f.refuses es (f.steps es selections) = (es', failed) ∧
      r = f.result directory failed := by
  unfold writeWith at h
  rcases hmade : d.makeDirectories directory with ⟨_ | ⟨⟩, made⟩
  · rw [hmade] at h
    cases h
    exact Or.inl ⟨rfl, Or.inl rfl⟩
  · rw [hmade] at h
    dsimp only at h ⊢
    split at h
    · next es way hlist hway =>
      rcases hrun : run f.refuses es (f.steps es selections) with ⟨es', failed⟩
      rw [hrun] at h
      cases h
      obtain ⟨_, hway', hend⟩ := Files.Disk.list_eq_ok_iff.mp hlist
      cases Except.ok.inj (hway.symm.trans hway')
      obtain ⟨taken, -, -, htaken⟩ := exists_taken hrun
      exact Or.inr ⟨es, es', failed, hlist,
        Files.Disk.list_alter hway hend fun name sub => find?_run_directory htaken, hrun, rfl⟩
    · cases h
      exact Or.inl ⟨rfl, Or.inr rfl⟩

theorem unmixed_self (h : ∀ path, e ≠ .writeFile path) (es : Entries) :
    Unmixed directory selections e es es :=
  ⟨rfl, Or.inl ⟨h, List.Sublist.refl _⟩⟩

/-- **A plan that is not written leaves no mixture of two plans.**  Let writing a plan to a
directory end with a fault, which may be any of these: the directory cannot be made, its listing
fails or breaks off after some entries, a lane file in it is not removed (it may be a directory), or
the file of a lane is not written.  Then the directory can still be listed if it could be before,
and what is listed then, against what was listed before the first step, has all entries that are no
lane files unchanged, and of the lane files

* only old ones, with their content, if the fault is not about writing a file;
* exactly the files of the lanes before the one that the fault is about, with their new content, if
  it is.

The faults of a disk by itself, whose files are written by `writeSelections`, are among these. -/
theorem failed_write_unmixed {d d' : Disk} (h : writeWith f d directory selections = (.error e, d')) :
    (∀ es, d.list directory = .ok es → ∃ es', d'.list directory = .ok es' ∧
      Unmixed directory selections e es es') ∧
    (∀ es', d'.list directory = .ok es' → ∃ es,
      (d.makeDirectories directory).2.list directory = .ok es ∧
        Unmixed directory selections e es es') ∧
    (writeSelections d directory selections).value
      = writeWith { refuses := Step.isRefused directory } d directory selections := by
  have hmade : ∀ es, (d.makeDirectories directory).2.list directory = .ok es →
      ∃ es', d'.list directory = .ok es' ∧ Unmixed directory selections e es es' := by
    intro es hes
    rcases writeWith_cases h with ⟨rfl, hr⟩ | ⟨es₁, es', failed, hes₁, hes', hrun, hr⟩
    · refine ⟨es, hes, unmixed_self ?_ es⟩
      rintro path rfl
      rcases hr with hr | hr <;> cases hr
    · cases Except.ok.inj (hes.symm.trans hes₁)
      exact ⟨es', hes', unmixed_of_run hrun hr.symm⟩
  refine ⟨fun es hes => hmade es ?_, fun es' hes' => ?_, value_writeSelections d directory selections⟩
  · rw [Files.Disk.makeDirectories_eq hes]
    exact hes
  · rcases writeWith_cases h with ⟨rfl, -⟩ | ⟨es, -, -, hes, -, -, -⟩
    · obtain ⟨_, hlist, hunmixed⟩ := hmade es' hes'
      cases Except.ok.inj (hlist.symm.trans hes')
      exact ⟨es', hes', hunmixed⟩
    · obtain ⟨_, hlist, hunmixed⟩ := hmade es hes
      cases Except.ok.inj (hlist.symm.trans hes')
      exact ⟨es, hes, hunmixed⟩

/-- A system that does not write the file of lane 1. -/
def noSecondLane : Faults where
  refuses s := s = .write "split.1.include.txt" ⟨.inclusion, ["a/B.java"]⟩

/-- Of the long plan only the first file is written, over what was there. -/
theorem failed_write_unmixed_longPlan :
    ∃ d', writeWith noSecondLane usedDisk "out" longPlan
        = (.error (.writeFile "out/split.1.include.txt"), d') ∧
      (∀ es, usedDisk.list "out" = .ok es → ∃ es', d'.list "out" = .ok es' ∧
        Unmixed "out" longPlan (.writeFile "out/split.1.include.txt") es es') ∧
      (∀ es', d'.list "out" = .ok es' → ∃ es,
        (usedDisk.makeDirectories "out").2.list "out" = .ok es ∧
          Unmixed "out" longPlan (.writeFile "out/split.1.include.txt") es es') ∧
      (writeSelections usedDisk "out" longPlan).value
        = writeWith { refuses := Step.isRefused "out" } usedDisk "out" longPlan := by
  have hfault : (writeWith noSecondLane usedDisk "out" longPlan).1
      = .error (.writeFile "out/split.1.include.txt") := by decide
  have h : writeWith noSecondLane usedDisk "out" longPlan
      = (_, (writeWith noSecondLane usedDisk "out" longPlan).2) := Prod.ext hfault rfl
  exact ⟨_, h, failed_write_unmixed h⟩

/-- A directory with the name of a lane file stands between old lane files. -/
def blockedDisk : Disk where
  root := .directory [("out", .directory [
    ("notes.txt", .file "keep\n".toUTF8), ("split.0.exclude.txt", .file "old\n".toUTF8),
    ("split.1.d.txt", .directory []), ("split.7.include.txt", .file "old\n".toUTF8)])]
  current := []

example : let written := (writeSelections blockedDisk "out" shortPlan).value
    written.1 = .error (.removeStale "out/split.1.d.txt") ∧
      (written.2.list "out").toOption.map (fun es => es.map (·.1))
        = some ["notes.txt", "split.1.d.txt", "split.7.include.txt"] := by decide

end TestLanes.Output
