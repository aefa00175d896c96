import TestLanes.Proofs.Files.Tree
import TestLanes.Proofs.Text.Pieces

/-!
# Paths of entries

The path to an entry is the path of its directory and one piece more, whether or not a slash was
already there (`exists_pieces_join`).  So it leads to the entry, if a system takes it
(`Disk.entry_join`).

The other direction is needed as well: what a path below a directory leads to is an entry of the
directory (`Disk.exists_list_of_entry_join`).  With both, what can be read below a directory is
determined by the entries that it lists.
-/

namespace TestLanes.Files

/-! ## 1. Pieces

A name is a text without slashes that is neither empty nor a point nor two.  The directory may end
with a slash, and then it has an empty piece at its end where the name is put; joining with anything
else puts a slash in between.
-/

/-- A text that is one piece of a path and leads to an entry of this name. -/
structure IsName (name : String) : Prop where
  slash : '/' ∉ name.toList
  filler : isFiller name = false
  parent : name ≠ ".."

instance (name : String) : Decidable (IsName name) :=
  decidable_of_iff ('/' ∉ name.toList ∧ isFiller name = false ∧ name ≠ "..")
    ⟨fun ⟨hslash, hfiller, hparent⟩ => ⟨hslash, hfiller, hparent⟩,
      fun h => ⟨h.slash, h.filler, h.parent⟩⟩

theorem IsName.isAbsolute {name : String} (h : IsName name) : isAbsolute name = false := by
  refine decide_eq_false fun hhead => h.slash ?_
  exact List.mem_of_mem_head? hhead

/-- The last piece of a path is the whole path or stands behind the last slash. -/
theorem exists_last_piece (path : String) : ∃ front last, path.toList = front ++ last ∧
    '/' ∉ last ∧ (front = [] ∨ ∃ way, front = way ++ ['/']) ∧
      (pieces path).getLast? = some (.ofList last) := by
  by_cases hslash : '/' ∈ path.toList
  · obtain ⟨way, last, hpath, hlast⟩ := Text.exists_last_separator hslash
    refine ⟨way ++ ['/'], last, by rw [hpath, List.append_assoc]; rfl, hlast, .inr ⟨way, rfl⟩, ?_⟩
    rw [pieces, hpath, Text.splitOn_append_cons, Text.splitOn_eq_singleton hlast, List.map_append,
      List.map_singleton, List.getLast?_concat]
  · refine ⟨[], path.toList, rfl, hslash, .inl rfl, ?_⟩
    rw [pieces, Text.splitOn_eq_singleton hslash]
    rfl

/-- The path to an entry has the pieces of its directory, without an empty one at the end, and the
name. -/
theorem exists_pieces_join {directory name : String} (hdirectory : directory.isEmpty = false)
    (hname : IsName name) :
    ∃ ps, (pieces directory = ps ∨ pieces directory = ps ++ [""]) ∧
      pieces (join directory name) = ps ++ [name] := by
  have hlast : (Text.splitOn '/' name.toList).map String.ofList = [name] := by
    rw [Text.splitOn_eq_singleton hname.slash]
    simp
  rw [join, hname.isAbsolute, hdirectory]
  simp only [Bool.or_false, Bool.false_eq_true, if_false]
  split
  · next hslash =>
    obtain ⟨front, hfront⟩ := List.getLast?_eq_some_iff.mp hslash
    refine ⟨(Text.splitOn '/' front).map String.ofList, Or.inr ?_, ?_⟩
    · rw [pieces, hfront, Text.splitOn_append_cons, List.map_append]
      rfl
    · rw [pieces, String.toList_append, hfront, List.append_assoc, List.singleton_append,
        Text.splitOn_append_cons, List.map_append, hlast]
  · refine ⟨pieces directory, Or.inl rfl, ?_⟩
    rw [pieces, String.toList_append, String.toList_append, List.append_assoc,
      show "/".toList ++ name.toList = '/' :: name.toList from rfl, Text.splitOn_append_cons,
      List.map_append, hlast]
    rfl

theorem isAbsolute_join {directory name : String} (hdirectory : directory.isEmpty = false)
    (hname : IsName name) : isAbsolute (join directory name) = isAbsolute directory := by
  obtain ⟨c, cs, hcons⟩ : ∃ c cs, directory.toList = c :: cs := by
    refine List.exists_cons_of_ne_nil fun hnil => ?_
    rw [String.toList_eq_nil_iff.mp hnil] at hdirectory
    cases hdirectory
  rw [join, hname.isAbsolute, hdirectory]
  simp only [Bool.or_false, Bool.false_eq_true, if_false]
  split <;> simp [isAbsolute, hcons]

theorem isEmpty_join {name : String} (directory : String) (hname : IsName name) :
    (join directory name).isEmpty = false := by
  have hempty : name.isEmpty = false := by
    have hfiller := hname.filler
    simp_all [isFiller]
  unfold join
  split
  · exact hempty
  · split <;> simp_all

theorem mem_join {directory name : String} {c : Char} (h : c ∈ (join directory name).toList) :
    c ∈ directory.toList ∨ c = '/' ∨ c ∈ name.toList := by
  unfold join at h
  split at h
  · exact Or.inr (Or.inr h)
  · split at h
    · rw [String.toList_append, List.mem_append] at h
      rcases h with h | h
      · exact Or.inl h
      · exact Or.inr (Or.inr h)
    · simpa [or_assoc] using h

/-- A path below a directory is the path of the directory and something behind it. -/
theorem exists_join_eq_append {directory name : String} (hdirectory : directory.isEmpty = false)
    (hname : IsName name) : ∃ rest, join directory name = directory ++ rest := by
  rw [join, hname.isAbsolute, hdirectory]
  simp only [Bool.or_false, Bool.false_eq_true, if_false]
  split
  · exact ⟨name, rfl⟩
  · exact ⟨"/" ++ name, String.append_assoc⟩

/-- Names are told apart by the paths to them. -/
theorem join_injective {directory n m : String} (hn : isAbsolute n = false)
    (hm : isAbsolute m = false) (h : join directory n = join directory m) : n = m := by
  unfold join at h
  rw [hn, hm] at h
  split at h
  · exact h
  · split at h
    · exact (String.append_right_inj _).mp h
    · exact (String.append_right_inj _).mp h

/-! ## 2. Ways

An empty piece and a point stay where they are, a name goes to the entry of that name.  A path is
taken by a system if it is short enough and has no null character, and so are then the paths to the
directories on it, as they are parts of it.
-/

namespace Disk

theorem eq_of_step_empty {d : Disk} {way way' : List String} (h : d.step way "" = .ok way') :
    way' = way := by
  simp only [step] at h
  split at h
  · cases h
  · cases h
  · exact (Except.ok.inj h).symm

theorem of_step_name {d : Disk} {way way' : List String} {name : String} (hname : IsName name)
    (h : d.step way name = .ok way') :
    ∃ es, d.root.at? way = some (.directory es) ∧ way' = way ++ [name] := by
  obtain ⟨es, hes⟩ := exists_at?_of_step h
  have hfiller := hname.filler
  simp only [isFiller, Bool.or_eq_false_iff, decide_eq_false_iff_not] at hfiller
  simp only [step, hes, hfiller, hname.parent, or_self, if_false] at h
  split at h
  · cases h
  · split at h
    · exact ⟨es, hes, (Except.ok.inj h).symm⟩
    · cases h

theorem start_join (d : Disk) {directory name : String} (hdirectory : directory.isEmpty = false)
    (hname : IsName name) : d.start (join directory name) = d.start directory := by
  rw [start, isAbsolute_join hdirectory hname, start]

theorem checkPath_of_join {directory name : String} (hdirectory : directory.isEmpty = false)
    (hname : IsName name) (h : checkPath (join directory name) = .ok ()) :
    checkPath directory = .ok () := by
  obtain ⟨rest, hjoin⟩ := exists_join_eq_append hdirectory hname
  rw [checkPath, hjoin, String.toList_append, String.utf8ByteSize_append] at h
  split at h
  · cases h
  · next hnull =>
    split at h
    · cases h
    · next hsize =>
      have hnull' : ¬ directory.toList.contains '\x00' = true := fun hmem => hnull (by simp_all)
      rw [checkPath, if_neg hnull', if_neg (by omega)]

/-- **The way to an entry** is that to its directory and the name. -/
theorem way_join {d : Disk} {directory name : String} {way : List String} {es : Entries} {x : Entry}
    (hway : d.way directory = .ok way) (hend : d.root.at? way = some (.directory es))
    (hname : IsName name) (hsize : name.utf8ByteSize ≤ nameLimit) (hx : find? name es = some x)
    (hcheck : checkPath (join directory name) = .ok ()) :
    d.way (join directory name) = .ok (way ++ [name]) := by
  obtain ⟨-, hempty, hpieces⟩ := way_eq_ok_iff.mp hway
  obtain ⟨ps, hfront, hjoin⟩ := exists_pieces_join hempty hname
  have hps : ps.foldlM d.step (d.start directory) = .ok way := by
    rcases hfront with hfront | hfront
    · rwa [hfront] at hpieces
    · rw [hfront] at hpieces
      obtain ⟨mid, hmid, hlast⟩ := foldlM_concat_eq_ok_iff.mp hpieces
      rwa [eq_of_step_empty hlast]
  have hstep : d.step way name = .ok (way ++ [name]) := by
    have hfiller := hname.filler
    simp only [isFiller, Bool.or_eq_false_iff, decide_eq_false_iff_not] at hfiller
    simp [step, hend, hfiller, hname.parent, Nat.not_lt.mpr hsize, hx]
  refine way_eq_ok_iff.mpr ⟨hcheck, isEmpty_join directory hname, ?_⟩
  rw [hjoin, start_join d hempty hname]
  exact foldlM_concat_eq_ok_iff.mpr ⟨way, hps, hstep⟩

/-- **A path below a directory leads to the entry of its name.** -/
theorem entry_join {d : Disk} {directory name : String} {es : Entries} {x : Entry}
    (hlist : d.list directory = .ok es) (hname : IsName name)
    (hsize : name.utf8ByteSize ≤ nameLimit) (hx : find? name es = some x)
    (hcheck : checkPath (join directory name) = .ok ()) :
    d.entry (join directory name) = .ok x := by
  obtain ⟨way, hway, hend⟩ := list_eq_ok_iff.mp hlist
  have hentry : d.root.at? (way ++ [name]) = some x := by
    rw [Entry.at?_append, hend, Option.bind_some, Entry.at?, hx]
    rfl
  simp only [entry, way_join hway hend hname hsize hx hcheck, bind, Except.bind, hentry]

/-- **What is below a directory is in it.** -/
theorem exists_list_of_entry_join {d : Disk} {directory name : String} {x : Entry}
    (hdirectory : directory.isEmpty = false) (hname : IsName name)
    (h : d.entry (join directory name) = .ok x) :
    ∃ es, d.list directory = .ok es ∧ find? name es = some x := by
  obtain ⟨way, hway, hat⟩ := entry_eq_ok_iff.mp h
  obtain ⟨hcheck, -, hpieces⟩ := way_eq_ok_iff.mp hway
  obtain ⟨ps, hfront, hjoin⟩ := exists_pieces_join hdirectory hname
  rw [hjoin, start_join d hdirectory hname] at hpieces
  obtain ⟨mid, hmid, hlast⟩ := foldlM_concat_eq_ok_iff.mp hpieces
  obtain ⟨es, hes, rfl⟩ := of_step_name hname hlast
  refine ⟨es, list_eq_ok_iff.mpr ⟨mid, way_eq_ok_iff.mpr
    ⟨checkPath_of_join hdirectory hname hcheck, hdirectory, ?_⟩, hes⟩, ?_⟩
  · rcases hfront with hfront | hfront
    · rwa [hfront]
    · -- a piece of no length at the end leads from a directory to itself
      have hstay : d.step mid "" = .ok mid := by simp [step, hes]
      rw [hfront]
      exact foldlM_concat_eq_ok_iff.mpr ⟨mid, hmid, hstay⟩
  · rw [Entry.at?_append, hes, Option.bind_some] at hat
    obtain ⟨y, hy, hyx⟩ := Option.bind_eq_some_iff.mp hat
    exact hy.trans hyx

end Disk

end TestLanes.Files
