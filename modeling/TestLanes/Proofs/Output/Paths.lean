import TestLanes.Proofs.Output.Directory

/-!
# Lane files at their paths

A plan that is written without a fault can be read back: the path of each lane leads to a file with
the lane's text (`readText_pathFor`).  The path leads there because the file is in the directory
(`run_steps`) and because no step is taken on a path that is refused (`isRefused_of_run`).

The entries of the directory are known up to their order only.  That is enough to find a file by its
name, since no name of a plan occurs twice.
-/

namespace TestLanes.Output

open Files (Disk Entries Entry IsName join find?)

/-! ## 1. Names as pieces of a path -/

/-- The name of a lane's file has digits and the characters of its fixed parts, no others. -/
theorem notMem_fileName {c : Char} (s : Selection) (lane : Nat) (hdigit : c.isDigit = false)
    (hparts : c ∉ "split.include.exclude.txt".toList) : c ∉ (s.fileName lane).toList := by
  have hkind : s.kind.name.toList ⊆ "split.include.exclude.txt".toList := by
    cases s.kind <;> decide
  have hfront : "split.".toList ⊆ "split.include.exclude.txt".toList := by decide
  have hpoint : ['.'] ⊆ "split.include.exclude.txt".toList := by decide
  have hback : ".txt".toList ⊆ "split.include.exclude.txt".toList := by decide
  intro hc
  rw [toList_fileName] at hc
  simp only [List.mem_append, List.mem_cons] at hc
  rcases hc with hc | hc | rfl | hc | hc
  · exact hparts (hfront hc)
  · exact Text.notMem_toDigits hdigit lane hc
  · exact hparts (hpoint List.mem_cons_self)
  · exact hparts (hkind hc)
  · exact hparts (hback hc)

theorem isName_fileName (s : Selection) (lane : Nat) : IsName (s.fileName lane) := by
  have hfirst : ∀ name : String, name.toList.head? ≠ some 's' → s.fileName lane ≠ name := by
    rintro name hname rfl
    rw [toList_fileName] at hname
    exact hname rfl
  refine ⟨notMem_fileName s lane (by decide) (by decide), ?_, hfirst ".." (by decide)⟩
  simp [Files.isFiller, hfirst "" (by decide), hfirst "." (by decide)]

/-! ## 2. Steps that are taken -/

/-- Of the steps that are all taken none is refused. -/
theorem isRefused_of_run {refuses : Step → Bool} {es es' : Entries} {ss : List Step}
    (h : run refuses es ss = (es', none)) : ∀ s ∈ ss, refuses s = false := by
  induction ss generalizing es with
  | nil =>
    intro s hs
    cases hs
  | cons t ss ih =>
    simp only [run] at h
    split at h
    · cases h
    · next hfree =>
      intro s hs
      rcases List.mem_cons.mp hs with rfl | hs
      · rw [Bool.or_eq_true, not_or, Bool.not_eq_true, Bool.not_eq_true] at hfree
        exact hfree.2
      · exact ih h s hs

theorem write_mem_steps {es : Entries} {selections : List Selection} {lane : Nat} {s : Selection}
    (hs : selections[lane]? = some s) : .write (s.fileName lane) s ∈ steps es selections := by
  refine List.mem_append_right _ ?_
  rw [writes_eq]
  exact List.mem_map.mpr ⟨(s, lane), List.mem_zipIdx_iff_getElem?.mpr hs, rfl⟩

theorem checkPath_of_isRefused {directory : String} {s : Step}
    (h : s.isRefused directory = false) : s.name.utf8ByteSize ≤ Files.nameLimit ∧
      Disk.checkPath (join directory s.name) = .ok () := by
  simp only [Step.isRefused, Bool.or_eq_false_iff, decide_eq_false_iff_not, Nat.not_lt,
    List.any_eq_false, Bool.not_eq_true', Bool.not_eq_false] at h
  obtain ⟨hsize, hpaths⟩ := h
  refine ⟨hsize, ?_⟩
  have hmem : join directory s.name ∈ s.paths directory := by
    cases s <;> simp [Step.paths, Step.name]
  have hok := hpaths _ hmem
  cases hcheck : Disk.checkPath (join directory s.name) with
  | error e =>
    rw [hcheck] at hok
    cases hok
  | ok _ => rfl

/-! ## 3. Files -/

/-- What the entries with a property are, up to their order, tells what is found under a name. -/
theorem find?_of_filter_perm {p : String → Bool} {es files : Entries}
    (hperm : (es.filter fun e => p e.1).Perm files) (hnodup : (files.map (·.1)).Nodup)
    {x : String × Entry} (hx : x ∈ files) : find? x.1 es = some x.2 := by
  obtain ⟨hmem, hp⟩ := List.mem_filter.mp (hperm.mem_iff.mpr hx)
  cases hfound : es.find? fun e => e.1 = x.1 with
  | none => exact absurd (decide_eq_true rfl) (List.find?_eq_none.mp hfound x hmem)
  | some y =>
    have hname : y.1 = x.1 := by simpa using List.find?_some hfound
    have hy : y ∈ files := by
      refine hperm.mem_iff.mp (List.mem_filter.mpr ⟨List.mem_of_find?_eq_some hfound, ?_⟩)
      rw [hname]
      exact hp
    rw [find?, hfound, List.inj_on_of_nodup_map hnodup hy hx hname]
    rfl

variable {d d' : Disk} {directory : String} {selections : List Selection} {lane : Nat}
  {s : Selection}

/-- **The path of a lane leads to its file**, once the plan is written. -/
theorem entry_pathFor (h : (writeSelections d directory selections).value = (.ok (), d'))
    (hs : selections[lane]? = some s) :
    d'.entry (pathFor directory lane s) = .ok (.file (fileText s).toUTF8) := by
  obtain ⟨es, es', -, hes', hrun⟩ := writeSelections_eq_ok h
  have hfile : (s.fileName lane, .file (fileText s).toUTF8) ∈ laneFiles 0 selections :=
    List.mem_map.mpr ⟨(s, lane), List.mem_zipIdx_iff_getElem?.mpr hs, rfl⟩
  have hfound := find?_of_filter_perm (run_steps hrun) (nodup_laneFiles 0 selections) hfile
  obtain ⟨hsize, hcheck⟩ :=
    checkPath_of_isRefused (isRefused_of_run hrun _ (write_mem_steps hs))
  exact Disk.entry_join hes' (isName_fileName s lane) hsize hfound hcheck

/-- The text is there as it was written. -/
theorem readText_pathFor (h : (writeSelections d directory selections).value = (.ok (), d'))
    (hs : selections[lane]? = some s) :
    d'.readText (pathFor directory lane s) = .ok (fileText s) := by
  have htext : String.fromUTF8? (fileText s).toUTF8 = some (fileText s) :=
    dif_pos (fileText s).isValidUTF8
  simp only [Disk.readText, Disk.readBytes, entry_pathFor h hs, bind, Except.bind, htext]

end TestLanes.Output
