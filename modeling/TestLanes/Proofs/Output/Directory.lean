import Mathlib.Data.List.Nodup
import TestLanes.Output.Directory
import TestLanes.Proofs.Files.Join
import TestLanes.Proofs.Text.Numeral

/-!
# The directory holds the last plan

After any number of plans that are written without a fault, the lane files of the directory are
those of the last plan and all else in it is as it was (`writeAll_holds_last`).  A single plan takes
the lane files away first, whatever they are from (`run_removals`), so that each name of the plan is
new when its file is put in place (`run_writes`).  No step takes a directory away, so the path leads
to the same place for the next plan (`find?_run_directory`).  That a plan names no lane twice rests
on the digits of a lane's number, which end at the point behind them (`fileName_injective`).
-/

namespace TestLanes.Output

open Files (Disk Entries Entry join find? put erase)

/-! ## 1. Names

The name of a lane's file has the number of the lane between points.  The digits end at the point
behind them, so the number can be read off the name; two lanes of one plan never have one name, even
if they are of different kinds.
-/

theorem toList_fileName (s : Selection) (lane : Nat) : (s.fileName lane).toList
    = "split.".toList ++ (Nat.toDigits 10 lane ++ '.' :: (s.kind.name.toList ++ ".txt".toList)) := by
  simp only [Selection.fileName, String.toList_append, Nat.toString_eq_repr, Nat.toList_repr,
    List.append_assoc]
  rfl

theorem isLaneFile_fileName (s : Selection) (lane : Nat) : isLaneFile (s.fileName lane) = true := by
  refine isLaneFile_iff.mpr ⟨toString lane ++ "." ++ s.kind.name, ?_⟩
  simp only [Selection.fileName, String.append_assoc]

theorem takeWhile_toDigits_point (n : Nat) (rest : List Char) :
    (Nat.toDigits 10 n ++ '.' :: rest).takeWhile (· ≠ '.') = Nat.toDigits 10 n := by
  have hdigits : ∀ c ∈ Nat.toDigits 10 n, decide (c ≠ '.') = true := by
    rintro c hc
    refine decide_eq_true ?_
    rintro rfl
    exact Text.notMem_toDigits (by decide) n hc
  rw [List.takeWhile_append_of_pos hdigits]
  simp

/-- **Distinct lanes have distinct names**, whatever kind their selections are of. -/
theorem fileName_injective {s t : Selection} {i j : Nat} (h : s.fileName i = t.fileName j) :
    i = j := by
  have hlists := congrArg String.toList h
  rw [toList_fileName, toList_fileName] at hlists
  have hdigits := congrArg (List.takeWhile (· ≠ '.')) (List.append_cancel_left hlists)
  rw [takeWhile_toDigits_point, takeWhile_toDigits_point] at hdigits
  calc i = Nat.ofDigitChars 10 (Nat.toDigits 10 i) 0 := Nat.ofDigitChars_ten_toDigits.symm
    _ = Nat.ofDigitChars 10 (Nat.toDigits 10 j) 0 := by rw [hdigits]
    _ = j := Nat.ofDigitChars_ten_toDigits

/-- The files of a plan, of which the first one is for `lane`. -/
def laneFiles (lane : Nat) (selections : List Selection) : Entries :=
  (selections.zipIdx lane).map fun q => (q.1.fileName q.2, .file (fileText q.1).toUTF8)

theorem isLaneFile_of_mem_laneFiles {lane : Nat} {selections : List Selection} {x : String × Entry}
    (h : x ∈ laneFiles lane selections) : isLaneFile x.1 = true := by
  obtain ⟨q, -, rfl⟩ := List.mem_map.mp h
  exact isLaneFile_fileName q.1 q.2

theorem ne_fileName_of_mem_laneFiles {lane later : Nat} (hlater : lane < later) (s : Selection)
    {selections : List Selection} {x : String × Entry} (h : x ∈ laneFiles later selections) :
    x.1 ≠ s.fileName lane := by
  obtain ⟨⟨t, j⟩, hq, rfl⟩ := List.mem_map.mp h
  intro hname
  have hj : later ≤ j := List.le_snd_of_mem_zipIdx hq
  exact absurd (fileName_injective hname) (by omega)

/-- **One distinct file for each lane.** -/
theorem nodup_laneFiles (lane : Nat) (selections : List Selection) :
    ((laneFiles lane selections).map (·.1)).Nodup := by
  induction selections generalizing lane with
  | nil => exact List.nodup_nil
  | cons s selections ih =>
    refine List.nodup_cons.mpr ⟨fun hmem => ?_, ih (lane + 1)⟩
    obtain ⟨x, hx, hname⟩ := List.mem_map.mp hmem
    exact ne_fileName_of_mem_laneFiles (Nat.lt_succ_self lane) s hx hname

/-! ## 2. Taking steps

A step changes the entry of its own name and no other.  The two lemmas on runs are what a run keeps:
directories, because a step about one is blocked, and everything that is no lane file, because all
steps of a plan are about lane files.
-/

variable {refuses : Step → Bool} {es es' : Entries} {ss ts : List Step}

theorem run_append (h : run refuses es (ss ++ ts) = (es', none)) :
    ∃ mid, run refuses es ss = (mid, none) ∧ run refuses mid ts = (es', none) := by
  induction ss generalizing es with
  | nil => exact ⟨es, rfl, h⟩
  | cons s ss ih =>
    simp only [List.cons_append, run] at h ⊢
    split at h
    · cases h
    · next hfree =>
      obtain ⟨mid, hmid, hrest⟩ := ih h
      exact ⟨mid, by rw [if_neg hfree, hmid], hrest⟩

theorem isBlocked_eq (s : Step) (es : Entries) :
    s.isBlocked es = ((find? s.name es).map Entry.isDirectory).getD false := by
  cases s <;> rfl

theorem find?_apply_of_ne {s : Step} {name : String} (h : s.name ≠ name) (es : Entries) :
    find? name (s.apply es) = find? name es := by
  cases s with
  | remove m => exact (Files.find?_erase name m es).trans (if_neg h)
  | write m selection => exact (Files.find?_put name m _ es).trans (if_neg h)

theorem filter_apply {s : Step} {p : String → Bool} (h : p s.name = false) (es : Entries) :
    (s.apply es).filter (fun e => p e.1) = es.filter fun e => p e.1 := by
  cases s with
  | remove m => exact Files.filter_erase h es
  | write m selection => exact Files.filter_put h _ es

/-- **Steps that are all taken leave directories where they are.** -/
theorem find?_run_directory (h : run refuses es ss = (es', none)) {name : String}
    {sub : List (String × Entry)} (hname : find? name es = some (.directory sub)) :
    find? name es' = some (.directory sub) := by
  induction ss generalizing es with
  | nil => cases h; exact hname
  | cons s ss ih =>
    simp only [run] at h
    split at h
    · cases h
    · next hfree =>
      simp only [Bool.or_eq_true, not_or, Bool.not_eq_true] at hfree
      refine ih h ((find?_apply_of_ne ?_ es).trans hname)
      rintro rfl
      simp [isBlocked_eq, hname, Entry.isDirectory] at hfree

/-- **Steps about lane files leave all else as it is.** -/
theorem filter_run (hlanes : ∀ s ∈ ss, isLaneFile s.name = true)
    (h : run refuses es ss = (es', none)) :
    (es'.filter fun e => !isLaneFile e.1) = es.filter fun e => !isLaneFile e.1 := by
  induction ss generalizing es with
  | nil => cases h; rfl
  | cons s ss ih =>
    simp only [run] at h
    split at h
    · cases h
    · rw [ih (fun t ht => hlanes t (List.mem_cons_of_mem s ht)) h,
        filter_apply (p := fun name => !isLaneFile name) (by simp [hlanes s List.mem_cons_self])]

/-! ## 3. One plan

The run is cut where the removals end.  By then no lane file is left, so each name of the plan is
new when its file is put in place and adds one entry; names of one plan do not clash either.
-/

/-- Names that are all removed are gone. -/
theorem run_removals {names : List String}
    (h : run refuses es (names.map .remove) = (es', none)) :
    es' = es.filter fun e => e.1 ∉ names := by
  induction names generalizing es with
  | nil =>
    cases h
    exact (List.filter_eq_self.mpr fun e _ => by simp).symm
  | cons n names ih =>
    simp only [List.map_cons, run] at h
    split at h
    · cases h
    · rw [ih h, Step.apply, erase, List.filter_filter]
      refine List.filter_congr fun e _ => ?_
      simp [Bool.and_comm]

theorem writes_eq (lane : Nat) (selections : List Selection) :
    writes lane selections = (selections.zipIdx lane).map fun q => .write (q.1.fileName q.2) q.1 := by
  induction selections generalizing lane with
  | nil => rfl
  | cons s selections ih => rw [writes, ih, List.zipIdx_cons, List.map_cons]

/-- **A plan is written**, if none of its names is there yet: its files are there, and what was
there before. -/
theorem run_writes {lane : Nat} {selections : List Selection}
    (hnew : ∀ s : Selection, ∀ j, lane ≤ j → find? (s.fileName j) es = none)
    (h : run refuses es (writes lane selections) = (es', none)) :
    es'.Perm (laneFiles lane selections ++ es) := by
  induction selections generalizing es lane with
  | nil => cases h; exact List.Perm.refl _
  | cons s selections ih =>
    simp only [writes, run] at h
    split at h
    · cases h
    · have hput : (put (s.fileName lane) (.file (fileText s).toUTF8) es).Perm
          ((s.fileName lane, .file (fileText s).toUTF8) :: es) :=
        Files.put_perm (hnew s lane (Nat.le_refl lane)) _
      refine (ih (fun t j hj => ?_) h).trans
        ((List.Perm.append_left _ hput).trans List.perm_middle)
      have hne : (Step.write (s.fileName lane) s).name ≠ t.fileName j := by
        intro hname
        have := fileName_injective hname
        omega
      rw [find?_apply_of_ne hne, hnew t j (by omega)]

theorem removals_eq (es : Entries) :
    removals es = ((es.filter fun e => isLaneFile e.1).map (·.1)).map .remove := by
  rw [removals, List.map_map]
  rfl

theorem isLaneFile_of_mem_steps {selections : List Selection} {s : Step}
    (h : s ∈ steps es selections) : isLaneFile s.name = true := by
  rcases List.mem_append.mp h with hremove | hwrite
  · obtain ⟨e, he, rfl⟩ := List.mem_map.mp hremove
    exact (List.mem_filter.mp he).2
  · rw [writes_eq] at hwrite
    obtain ⟨q, -, rfl⟩ := List.mem_map.mp hwrite
    exact isLaneFile_fileName q.1 q.2

/-- **After a plan the lane files are its own**, whatever there was before. -/
theorem run_steps {selections : List Selection}
    (h : run refuses es (steps es selections) = (es', none)) :
    (es'.filter fun e => isLaneFile e.1).Perm (laneFiles 0 selections) := by
  obtain ⟨mid, hremoved, hwritten⟩ := run_append h
  rw [removals_eq] at hremoved
  have hmid : ∀ e ∈ mid, isLaneFile e.1 = false := by
    intro e he
    rw [run_removals hremoved, List.mem_filter] at he
    refine Bool.eq_false_iff.mpr fun hlane => of_decide_eq_true he.2 ?_
    exact List.mem_map_of_mem (List.mem_filter.mpr ⟨he.1, hlane⟩)
  have hnew : ∀ s : Selection, ∀ j, 0 ≤ j → find? (s.fileName j) mid = none := by
    intro s j _
    rw [find?, Option.map_eq_none_iff, List.find?_eq_none]
    intro e he hname
    have := hmid e he
    rw [of_decide_eq_true hname, isLaneFile_fileName] at this
    cases this
  have hnone : (mid.filter fun e => isLaneFile e.1) = [] :=
    List.filter_eq_nil_iff.mpr fun e he => by simp [hmid e he]
  have hperm := (run_writes hnew hwritten).filter fun e => isLaneFile e.1
  rwa [List.filter_append, List.filter_eq_self.mpr fun e he => isLaneFile_of_mem_laneFiles he, hnone,
    List.append_nil] at hperm

/-! ## 4. One plan on a disk

Making the directory and listing it come before the steps.  The steps keep the directories in it, so
the path leads to it afterwards, and what is listed there is what the steps have left.
-/

/-- A plan that is written without a fault changes the entries of the directory by its steps, and
the directory can be listed again. -/
theorem writeSelections_eq_ok {d d' : Disk} {directory : String} {selections : List Selection}
    (h : (writeSelections d directory selections).value = (.ok (), d')) :
    ∃ es es', (d.makeDirectories directory).2.list directory = .ok es ∧
      d'.list directory = .ok es' ∧
      run (Step.isRefused directory) es (steps es selections) = (es', none) := by
  unfold writeSelections at h
  split at h
  · cases h
  · next d₁ hmade =>
    split at h
    · next es way hlist hway =>
      dsimp only at h
      rcases hrun : run (Step.isRefused directory) es (steps es selections) with ⟨es', failed⟩
      simp only [hrun, Prod.mk.injEq] at h
      obtain ⟨hresult, rfl⟩ := h
      cases failed with
      | some s => cases hresult
      | none =>
        obtain ⟨_, hway', hend⟩ := Files.Disk.list_eq_ok_iff.mp hlist
        cases Except.ok.inj (hway.symm.trans hway')
        exact ⟨es, es', by rw [hmade, hlist],
          Files.Disk.list_alter hway hend fun name sub => find?_run_directory hrun, hrun⟩
    · cases h

/-! ## 5. Any number of plans

Only the last plan matters for the lane files, and none matters for the rest, so the induction is on
the plans in front of the last one.
-/

/-- Writes plans one after another and stops at the first fault. -/
def writeAll (directory : String) (d : Disk) (plans : List (List Selection)) :
    Except WriteError Disk :=
  plans.foldlM (fun d selections =>
    match (writeSelections d directory selections).value with
    | (.ok (), d) => .ok d
    | (.error e, _) => .error e) d

theorem exists_of_writeAll_cons {d d' : Disk} {directory : String} {selections : List Selection}
    {plans : List (List Selection)} (h : writeAll directory d (selections :: plans) = .ok d') :
    ∃ d₁, (writeSelections d directory selections).value = (.ok (), d₁) ∧
      writeAll directory d₁ plans = .ok d' := by
  obtain ⟨d₁, hfirst, hrest⟩ := foldlM_cons_eq_ok_iff.mp h
  split at hfirst
  · next heq =>
    cases hfirst
    exact ⟨d₁, heq, hrest⟩
  · cases hfirst

/-- **After plans that are all written** the directory holds the files of the last one, and else
what it held before. -/
theorem list_writeAll {d d' : Disk} {directory : String} {plans : List (List Selection)}
    {last : List Selection} (h : writeAll directory d (plans ++ [last]) = .ok d') :
    ∃ es es', (d.makeDirectories directory).2.list directory = .ok es ∧
      d'.list directory = .ok es' ∧
      (es'.filter fun e => isLaneFile e.1).Perm (laneFiles 0 last) ∧
      (es'.filter fun e => !isLaneFile e.1) = es.filter fun e => !isLaneFile e.1 := by
  -- on the plans from the front: what the first one leaves is where the others start
  induction plans generalizing d with
  | nil =>
    obtain ⟨d₁, hfirst, hrest⟩ := exists_of_writeAll_cons h
    cases Except.ok.inj hrest
    obtain ⟨es, es', hes, hes', hrun⟩ := writeSelections_eq_ok hfirst
    exact ⟨es, es', hes, hes', run_steps hrun, filter_run (fun s => isLaneFile_of_mem_steps) hrun⟩
  | cons selections plans ih =>
    obtain ⟨d₁, hfirst, hrest⟩ := exists_of_writeAll_cons h
    obtain ⟨es, es₁, hes, hes₁, hrun⟩ := writeSelections_eq_ok hfirst
    obtain ⟨es₁', es', hes₁', hes', hlanes, hothers⟩ := ih hrest
    rw [Files.Disk.makeDirectories_eq hes₁, hes₁] at hes₁'
    cases Except.ok.inj hes₁'
    exact ⟨es, es', hes, hes', hlanes,
      hothers.trans (filter_run (fun s => isLaneFile_of_mem_steps) hrun)⟩

theorem isAbsolute_of_mem_laneFiles {lane : Nat} {selections : List Selection} {x : String × Entry}
    (h : x ∈ laneFiles lane selections) : Files.isAbsolute x.1 = false := by
  obtain ⟨q, -, rfl⟩ := List.mem_map.mp h
  rw [Files.isAbsolute, toList_fileName]
  rfl

/-- **The lanes of a plan have distinct paths.** -/
theorem nodup_paths (directory : String) (lane : Nat) (selections : List Selection) :
    ((laneFiles lane selections).map fun e => join directory e.1).Nodup := by
  have hnames := nodup_laneFiles lane selections
  refine List.Nodup.map_on (fun x hx y hy hpaths => ?_) (List.Nodup.of_map _ hnames)
  exact List.inj_on_of_nodup_map hnames hx hy
    (Files.join_injective (isAbsolute_of_mem_laneFiles hx) (isAbsolute_of_mem_laneFiles hy) hpaths)

/-- **The directory holds exactly the last plan.**  Plans are written one after another, at least
one and all without a fault.  Then the lane files in the directory are at the paths of the lanes of
the last plan, one distinct file for each lane, which has the lane's patterns in order with a line
feed after each one.  All other entries are what the directory held when it was there first; that is
what it held before, if it was there before.  A directory with the name of a lane file is not
assumed away: it makes a plan fail. -/
theorem writeAll_holds_last {d d' : Disk} {directory : String} {plans : List (List Selection)}
    {last : List Selection} (h : writeAll directory d (plans ++ [last]) = .ok d') :
    ∃ es es', (d.makeDirectories directory).2.list directory = .ok es ∧
      (∀ held, d.list directory = .ok held → held = es) ∧
      d'.list directory = .ok es' ∧
      ((es'.filter fun e => isLaneFile e.1).map fun e => (join directory e.1, e.2)).Perm
        (last.zipIdx.map fun q => (pathFor directory q.2 q.1,
          .file (String.join (q.1.patterns.map (· ++ "\n"))).toUTF8)) ∧
      (last.zipIdx.map fun q => pathFor directory q.2 q.1).Nodup ∧
      (es'.filter fun e => !isLaneFile e.1) = es.filter fun e => !isLaneFile e.1 := by
  obtain ⟨es, es', hes, hes', hlanes, hothers⟩ := list_writeAll h
  refine ⟨es, es', hes, fun held hheld => ?_, hes', ?_, ?_, hothers⟩
  · rw [Files.Disk.makeDirectories_eq hheld, hheld] at hes
    exact Except.ok.inj hes
  · have hpaths := hlanes.map fun e => (join directory e.1, e.2)
    rwa [laneFiles, List.map_map] at hpaths
  · have hpaths := nodup_paths directory 0 last
    rwa [laneFiles, List.map_map] at hpaths

/-- A directory with notes, another directory, and lane files of an earlier plan. -/
def usedDisk : Disk where
  root := .directory [("out", .directory [
    ("logs", .directory []), ("notes.txt", .file "keep\n".toUTF8),
    ("split.0.exclude.txt", .file "old\n".toUTF8), ("split.7.include.txt", .file "old\n".toUTF8)])]
  current := []

def longPlan : List Selection :=
  [⟨.exclusion, ["a/B.java"]⟩, ⟨.inclusion, ["a/B.java"]⟩, ⟨.inclusion, []⟩]

def shortPlan : List Selection := [⟨.exclusion, ["a/C.java", "a/C.class"]⟩, ⟨.exclusion, []⟩]

/-- The long plan and then the short one are written over what was there. -/
theorem writeAll_holds_last_shortPlan :
    ∃ d', writeAll "out" usedDisk ([longPlan] ++ [shortPlan]) = .ok d' ∧
      ∃ es es', (usedDisk.makeDirectories "out").2.list "out" = .ok es ∧
        (∀ held, usedDisk.list "out" = .ok held → held = es) ∧
        d'.list "out" = .ok es' ∧
        ((es'.filter fun e => isLaneFile e.1).map fun e => (join "out" e.1, e.2)).Perm
          (shortPlan.zipIdx.map fun q => (pathFor "out" q.2 q.1,
            .file (String.join (q.1.patterns.map (· ++ "\n"))).toUTF8)) ∧
        (shortPlan.zipIdx.map fun q => pathFor "out" q.2 q.1).Nodup ∧
        (es'.filter fun e => !isLaneFile e.1) = es.filter fun e => !isLaneFile e.1 := by
  have hwritten : (writeAll "out" usedDisk ([longPlan] ++ [shortPlan])).toOption.isSome = true := by
    decide
  cases h : writeAll "out" usedDisk ([longPlan] ++ [shortPlan]) with
  | error e =>
    rw [h] at hwritten
    cases hwritten
  | ok d' => exact ⟨d', rfl, writeAll_holds_last h⟩

example : ((writeAll "out" usedDisk ([longPlan] ++ [shortPlan])).toOption.bind fun d =>
    (d.list "out").toOption.map fun es => es.map (·.1))
      = some ["logs", "notes.txt", "split.0.exclude.txt", "split.1.exclude.txt"] := by decide

end TestLanes.Output
