import Mathlib.Data.List.Nodup
import Mathlib.Data.List.Sort
import TestLanes.Files.Tree
import TestLanes.Proofs.Steps

/-!
# Changing one directory, and walking through it

What a change of one directory does to the rest of a tree.  Every directory stays a directory as
long as the change keeps those in the directory that it is made in (`Entry.exists_at?_alter`).  A
path is followed name by name, so this is all that it needs to lead to the same place afterwards
(`Disk.Keeps.way_eq`), and a directory that has been listed is not made again
(`Disk.makeDirectories_eq`).

A walk below a directory meets the files of its entries in ascending order of their names
(`filesBelow_eq`), so the order in which a directory is listed does not show (`filesBelow_perm`).
-/

namespace TestLanes.Files

/-! ## 1. Entries

Putting and erasing are described by what is found afterwards under each name, and by what a test on
names keeps, so that no later proof looks at the order of the entries.  Along a way they are then
described by what is at the end of each way: the changed directory has the changed entries, and
every other directory is where it was, if perhaps with other entries.
-/

theorem find?_cons (n k : String) (x : Entry) (es : Entries) :
    find? n ((k, x) :: es) = if k = n then some x else find? n es := by
  by_cases h : k = n <;> simp [find?, h]

/-- What is found under a name is an entry of that name. -/
theorem mem_of_find?_eq_some {n : String} {x : Entry} {es : Entries} (h : find? n es = some x) :
    (n, x) ∈ es := by
  obtain ⟨⟨k, y⟩, hfound, rfl⟩ := Option.map_eq_some_iff.mp h
  have hname := List.find?_some hfound
  obtain rfl : k = n := of_decide_eq_true hname
  exact List.mem_of_find?_eq_some hfound

/-- What is put in place is found under its name; other names are not touched. -/
theorem find?_put (n m : String) (e : Entry) (es : Entries) :
    find? n (put m e es) = if m = n then some e else find? n es := by
  induction es with
  | nil => exact find?_cons n m e []
  | cons x es ih =>
    obtain ⟨k, x⟩ := x
    simp only [put]
    split
    · exact find?_cons n m e _
    · split
      · next hmk =>
        subst hmk
        rw [find?_cons, find?_cons]
        split <;> rfl
      · next hmk =>
        rw [find?_cons, ih, find?_cons]
        by_cases hk : k = n
        · subst hk
          simp [hmk]
        · rw [if_neg hk, if_neg hk]

/-- A name that is erased is not found; other names are not touched. -/
theorem find?_erase (n m : String) (es : Entries) :
    find? n (erase m es) = if m = n then none else find? n es := by
  rw [find?, erase, List.find?_filter]
  split
  · next hmn =>
    subst hmn
    simp
  · next hmn =>
    rw [find?]
    congr 2
    funext x
    by_cases hx : x.1 = n
    · simp [hx, Ne.symm hmn]
    · simp [hx]

/-- Other names than the one that is put in place are not touched. -/
theorem filter_put {p : String → Bool} {n : String} (hn : p n = false) (x : Entry) (es : Entries) :
    (put n x es).filter (fun e => p e.1) = es.filter fun e => p e.1 := by
  induction es with
  | nil => simp [put, hn]
  | cons e es ih =>
    simp only [put]
    split
    · rw [List.filter_cons_of_neg (by simp [hn])]
    · split
      · next hne =>
        rw [List.filter_cons_of_neg (by simp [hn]), List.filter_cons_of_neg (by simp [← hne, hn])]
      · rw [List.filter_cons, List.filter_cons, ih]

theorem filter_erase {p : String → Bool} {n : String} (hn : p n = false) (es : Entries) :
    (erase n es).filter (fun e => p e.1) = es.filter fun e => p e.1 := by
  rw [erase, List.filter_filter]
  refine List.filter_congr fun e _ => ?_
  by_cases he : e.1 = n <;> simp [he, hn]

theorem put_perm {n : String} {es : Entries} (h : find? n es = none) (x : Entry) :
    (put n x es).Perm ((n, x) :: es) := by
  induction es with
  | nil => exact List.Perm.refl _
  | cons e es ih =>
    rw [find?_cons] at h
    split at h
    · cases h
    · next hne =>
      simp only [put]
      split
      · exact List.Perm.refl _
      · rw [if_neg (Ne.symm hne)]
        exact ((ih h).cons e).trans (List.Perm.swap _ _ _)

namespace Entry

theorem at?_append (e : Entry) (v w : List String) :
    e.at? (v ++ w) = (e.at? v).bind (·.at? w) := by
  induction v generalizing e with
  | nil => rfl
  | cons n v ih =>
    cases e with
    | file content => rfl
    | directory es =>
      simp only [List.cons_append, at?]
      cases find? n es with
      | none => rfl
      | some x => exact ih x

theorem at?_alter (f : Entries → Entries) {e : Entry} {way : List String} {es : Entries}
    (h : e.at? way = some (.directory es)) : (e.alter f way).at? way = some (.directory (f es)) := by
  induction way generalizing e with
  | nil =>
    cases Option.some.inj h
    rfl
  | cons n way ih =>
    cases e with
    | file content => cases h
    | directory es' =>
      obtain ⟨x, hx, hat⟩ := Option.bind_eq_some_iff.mp h
      simp only [alter, hx, at?, find?_put, if_pos, Option.bind_some]
      exact ih hat

/-- **Directories stay directories**, if the change keeps those in the changed directory. -/
theorem exists_at?_alter {f : Entries → Entries} {e : Entry} {way w : List String} {es sub : Entries}
    (hway : e.at? way = some (.directory es))
    (hkeep : ∀ name sub, find? name es = some (.directory sub) →
      find? name (f es) = some (.directory sub))
    (hw : e.at? w = some (.directory sub)) :
    ∃ sub', (e.alter f way).at? w = some (.directory sub') := by
  -- along the part that `way` and `w` share; a first name of `w` that is not in `way` is not touched
  induction way generalizing e w with
  | nil =>
    cases Option.some.inj hway
    cases w with
    | nil => exact ⟨f es, rfl⟩
    | cons n w =>
      obtain ⟨x, hx, hat⟩ := Option.bind_eq_some_iff.mp hw
      cases x with
      | file content => cases w <;> simp [at?] at hat
      | directory es' =>
        refine ⟨sub, ?_⟩
        simp only [alter, at?, hkeep n es' hx, Option.bind_some]
        exact hat
  | cons m way ih =>
    cases e with
    | file content => cases hway
    | directory es' =>
      obtain ⟨y, hy, hat⟩ := Option.bind_eq_some_iff.mp hway
      simp only [alter, hy]
      cases w with
      | nil => exact ⟨_, rfl⟩
      | cons n w =>
        obtain ⟨x, hx, hatw⟩ := Option.bind_eq_some_iff.mp hw
        simp only [at?, find?_put]
        split
        · next hmn =>
          subst hmn
          obtain rfl : y = x := Option.some.inj (hy.symm.trans hx)
          exact ih hat hatw
        · exact ⟨sub, by rw [hx]; exact hatw⟩

end Entry

/-! ## 2. Ways -/

namespace Disk

/-- A path takes a way if a system takes the path and all of its pieces lead somewhere. -/
theorem way_eq_ok_iff {d : Disk} {path : String} {way : List String} :
    d.way path = .ok way ↔ checkPath path = .ok () ∧ path.isEmpty = false ∧
      (pieces path).foldlM d.step (d.start path) = .ok way := by
  unfold Disk.way
  cases checkPath path with
  | error e => simp [bind, Except.bind]
  | ok _ =>
    simp only [bind, Except.bind, true_and]
    cases path.isEmpty <;> simp

/-! ## 3. Directories that stay

`Keeps` is the invariant of writing: whatever was a directory still is one, and paths start from the
same place.  It says nothing about files, and need not, since a way to a directory leads through
directories only.  So every path to a directory leads there still, which is what a second run of the
writer on the same path needs.
-/

/-- Every directory of one disk is a directory of the other one, which has the same place to start
from. -/
structure Keeps (d d' : Disk) : Prop where
  current : d'.current = d.current
  directory : ∀ w es, d.root.at? w = some (.directory es) →
    ∃ es', d'.root.at? w = some (.directory es')

/-- A change of one directory keeps all others, if it keeps those in the changed one. -/
theorem keeps_alter {d : Disk} {f : Entries → Entries} {way : List String} {es : Entries}
    (hway : d.root.at? way = some (.directory es))
    (hkeep : ∀ name sub, find? name es = some (.directory sub) →
      find? name (f es) = some (.directory sub)) : d.Keeps (d.alter way f) :=
  ⟨rfl, fun _ _ hw => Entry.exists_at?_alter hway hkeep hw⟩

theorem exists_at?_of_step {d : Disk} {way way' : List String} {piece : String}
    (h : d.step way piece = .ok way') : ∃ es, d.root.at? way = some (.directory es) := by
  unfold step at h
  split at h
  · cases h
  · cases h
  · next es hes => exact ⟨es, hes⟩

/-- A way that ends at a directory leads through directories only, so it starts at one. -/
theorem exists_at?_of_foldlM {d : Disk} {ps : List String} {way way' : List String} {es : Entries}
    (h : ps.foldlM d.step way = .ok way') (hend : d.root.at? way' = some (.directory es)) :
    ∃ es₀, d.root.at? way = some (.directory es₀) := by
  cases ps with
  | nil =>
    cases Except.ok.inj h
    exact ⟨es, hend⟩
  | cons p ps =>
    obtain ⟨w, hstep, -⟩ := foldlM_cons_eq_ok_iff.mp h
    exact exists_at?_of_step hstep

namespace Keeps

variable {d d' : Disk}

/-- A step to a directory can be taken on the other disk. -/
theorem step_eq (hk : d.Keeps d') {way way' : List String} {piece : String} {es : Entries}
    (h : d.step way piece = .ok way') (hend : d.root.at? way' = some (.directory es)) :
    d'.step way piece = .ok way' := by
  obtain ⟨es₀, hes₀⟩ := exists_at?_of_step h
  obtain ⟨es₁, hes₁⟩ := hk.directory way es₀ hes₀
  simp only [step, hes₀] at h
  simp only [step, hes₁]
  split
  · simpa [*] using h
  · split
    · simpa [*] using h
    · split
      · simp [*] at h
      · simp only [*, if_false] at h
        split at h
        · next hfound =>
          cases Except.ok.inj h
          obtain ⟨es', hes'⟩ := hk.directory _ _ hend
          rw [Entry.at?_append, hes₁, Option.bind_some] at hes'
          obtain ⟨x, hx, -⟩ := Option.bind_eq_some_iff.mp hes'
          simp [hx]
        · cases h

theorem foldlM_step_eq (hk : d.Keeps d') {ps : List String} {way way' : List String} {es : Entries}
    (h : ps.foldlM d.step way = .ok way') (hend : d.root.at? way' = some (.directory es)) :
    ps.foldlM d'.step way = .ok way' := by
  induction ps generalizing way with
  | nil => exact h
  | cons p ps ih =>
    obtain ⟨w, hstep, hrest⟩ := foldlM_cons_eq_ok_iff.mp h
    obtain ⟨es₀, hes₀⟩ := exists_at?_of_foldlM hrest hend
    exact foldlM_cons_eq_ok_iff.mpr ⟨w, hk.step_eq hstep hes₀, ih hrest⟩

/-- **A path to a directory leads there on the other disk.** -/
theorem way_eq (hk : d.Keeps d') {path : String} {way : List String} {es : Entries}
    (h : d.way path = .ok way) (hend : d.root.at? way = some (.directory es)) :
    d'.way path = .ok way := by
  obtain ⟨hcheck, hempty, hpieces⟩ := way_eq_ok_iff.mp h
  have hstart : d'.start path = d.start path := by
    unfold start
    rw [hk.current]
  exact way_eq_ok_iff.mpr ⟨hcheck, hempty, hstart ▸ hk.foldlM_step_eq hpieces hend⟩

end Keeps

theorem entry_eq_ok_iff {d : Disk} {path : String} {x : Entry} :
    d.entry path = .ok x ↔ ∃ way, d.way path = .ok way ∧ d.root.at? way = some x := by
  rw [entry, bind_eq_ok_iff]
  refine exists_congr fun way => and_congr_right fun _ => ?_
  cases d.root.at? way <;> simp

theorem list_eq_ok_iff_entry {d : Disk} {path : String} {es : Entries} :
    d.list path = .ok es ↔ d.entry path = .ok (.directory es) := by
  rw [list, bind_eq_ok_iff]
  constructor
  · rintro ⟨x, hx, hes⟩
    cases x with
    | file content => cases hes
    | directory es' =>
      cases Except.ok.inj hes
      exact hx
  · exact fun h => ⟨.directory es, h, rfl⟩

/-- What is listed is a directory at the end of a way. -/
theorem list_eq_ok_iff {d : Disk} {path : String} {es : Entries} :
    d.list path = .ok es ↔ ∃ way, d.way path = .ok way ∧ d.root.at? way = some (.directory es) := by
  rw [list_eq_ok_iff_entry, entry_eq_ok_iff]

theorem isDirectory_iff {d : Disk} {path : String} :
    d.isDirectory path = true ↔ ∃ es, d.list path = .ok es := by
  simp only [list_eq_ok_iff_entry]
  unfold isDirectory
  split
  · next x hx =>
    rw [hx]
    cases x <;> simp [Entry.isDirectory]
  · next hx =>
    rw [hx]
    simp

theorem foldlM_stepMaking_eq {d : Disk} {ps : List String} {way way' : List String}
    (h : ps.foldlM d.step way = .ok way') : ps.foldlM stepMaking (d, way) = .ok (d, way') := by
  induction ps generalizing way with
  | nil =>
    cases Except.ok.inj h
    rfl
  | cons p ps ih =>
    obtain ⟨w, hstep, hrest⟩ := foldlM_cons_eq_ok_iff.mp h
    exact foldlM_cons_eq_ok_iff.mpr ⟨(d, w), by simp only [stepMaking, hstep], ih hrest⟩

/-- **A directory that can be listed is not made again**: nothing changes. -/
theorem makeDirectories_eq {d : Disk} {path : String} {es : Entries} (h : d.list path = .ok es) :
    d.makeDirectories path = (.ok (), d) := by
  obtain ⟨way, hway, hend⟩ := list_eq_ok_iff.mp h
  obtain ⟨hcheck, -, hpieces⟩ := way_eq_ok_iff.mp hway
  simp only [makeDirectories, hcheck, foldlM_stepMaking_eq hpieces, hend]

/-- **After a change of a directory its path leads to what it was changed to**, if the change keeps
the directories in it. -/
theorem list_alter {d : Disk} {path : String} {way : List String} {es : Entries}
    {f : Entries → Entries} (hway : d.way path = .ok way) (hend : d.root.at? way = some (.directory es))
    (hkeep : ∀ name sub, find? name es = some (.directory sub) →
      find? name (f es) = some (.directory sub)) :
    (d.alter way f).list path = .ok (f es) :=
  list_eq_ok_iff.mpr ⟨way, (keeps_alter hend hkeep).way_eq hway hend, Entry.at?_alter f hend⟩

end Disk

/-! ## 4. Walks

The walk sorts what it has found under each name, which comes to the same as sorting the entries
first.  Names of a directory are distinct, so a list of entries can be sorted by name in one way
only.
-/

section ByName

variable {α β : Type}

theorem byName_eq_insertionSort (xs : List (String × α)) :
    byName xs = xs.insertionSort fun a b => a.1 ≤ b.1 := by
  have hinsert : (insertByName : String × α → _) = List.orderedInsert fun a b => a.1 ≤ b.1 := by
    funext x ys
    induction ys with
    | nil => rfl
    | cons y ys ih => rw [insertByName, List.orderedInsert_cons, ih]
  rw [byName, hinsert]
  rfl

theorem byName_perm (xs : List (String × α)) : (byName xs).Perm xs := by
  rw [byName_eq_insertionSort]
  exact List.perm_insertionSort _ xs

theorem pairwise_byName (xs : List (String × α)) : (byName xs).Pairwise fun a b => a.1 ≤ b.1 := by
  have : Std.Total fun a b : String × α => a.1 ≤ b.1 := ⟨fun a b => String.le_total a.1 b.1⟩
  have : IsTrans (String × α) fun a b => a.1 ≤ b.1 := ⟨fun _ _ _ => String.le_trans⟩
  rw [byName_eq_insertionSort]
  exact List.pairwise_insertionSort _ xs

theorem byName_map (f : String × α → String × β) (hf : ∀ x, (f x).1 = x.1)
    (xs : List (String × α)) : byName (xs.map f) = (byName xs).map f := by
  rw [byName_eq_insertionSort, byName_eq_insertionSort]
  refine (List.map_insertionSort _ _ f xs fun a _ b _ => ?_).symm
  rw [hf, hf]

end ByName

theorem filesByName_eq (path : String) (es : Entries) :
    filesByName path es = es.map fun e => (e.1, e.2.files (join path e.1)) := by
  induction es with
  | nil => rfl
  | cons e es ih => rw [filesByName, List.map_cons, ih]

@[simp] theorem filesBelow_nil (path : String) : filesBelow path [] = [] := rfl

theorem filesBelow_eq (path : String) (es : Entries) :
    filesBelow path es = (byName es).flatMap fun e => e.2.files (join path e.1) := by
  have hsort := byName_map (fun e : String × Entry => (e.1, e.2.files (join path e.1)))
    (fun _ => rfl) es
  rw [filesBelow, filesByName_eq, hsort, List.flatMap_map]

/-- **A walk does not depend on the order in which a directory is listed.** -/
theorem filesBelow_perm {es es' : Entries} (h : es.Perm es') (hnames : (es.map (·.1)).Nodup)
    (path : String) : filesBelow path es = filesBelow path es' := by
  have hsame : byName es = byName es' := by
    refine List.Perm.eq_of_pairwise ?_ (pairwise_byName es) (pairwise_byName es')
      ((byName_perm es).trans (h.trans (byName_perm es').symm))
    intro a b ha hb hab hba
    have ha' : a ∈ es := (byName_perm es).mem_iff.mp ha
    have hb' : b ∈ es := h.mem_iff.mpr ((byName_perm es').mem_iff.mp hb)
    exact List.inj_on_of_nodup_map hnames ha' hb' (String.le_antisymm hab hba)
  rw [filesBelow_eq, filesBelow_eq, hsame]

end TestLanes.Files
