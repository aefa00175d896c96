import TestLanes.Proofs.Settings.Resolve

/-!
# Settings without one key

A key is reached by a way through tables: `at?` is the value at its end, and `Layer.without` is what
is left when the key is taken out of the table that it is in.  Settings with equal rests differ in
this one key at most, be it that it has another value or that only one of them has it.

What is not on the way is the same in both (`mem_of_without_eq`, `get?_eq_of_without_eq`), and what
is on the way differs below only (`exists_table_of_without_eq`).  Taking a key out and merging can
be done in any order (`without_mergeEntries`), so files that differ in a key differ in it over what
is built in as well (`merge_without_eq`).  The value that a file gives a key is the one over what is
built in, if they are not both tables (`at?_merge_of_at?_merge_nil`).
-/

namespace TestLanes.Settings

/-! ## 1. The end of a way

A way is a list of names, the first of which is looked up in the settings, the next one in the table
that stands there, and so on.  The empty way leads nowhere.  The lemmas go by recursion on the way,
and treat its last name apart, since there the value itself is meant and not a table.
-/

/-- What stands at the end of a way through tables. -/
def at? : List String → Layer → Option Value
  | [], _ => none
  | [k], l => get? l k
  | k :: way, l => at? way (valueAt l k).entries

theorem at?_cons_cons (k j : String) (way : List String) (l : Layer) :
    at? (k :: j :: way) l = at? (j :: way) ((get? l k).getD .nothing).entries := rfl

/-- What has something in it is a table. -/
theorem exists_table_of_get?_entries {l : Layer} {k j : String} {v : Value}
    (h : get? (valueAt l k).entries j = some v) :
    ∃ es, get? l k = some (.table es) ∧ get? es j = some v := by
  rw [valueAt] at h
  cases hk : get? l k with
  | none =>
    rw [hk] at h
    cases h
  | some w =>
    rw [hk, Option.getD_some] at h
    cases w with
    | table es => exact ⟨es, rfl, h⟩
    | _ => cases h

/-- **What a layer gives at the end of a way** lies over what the base has there, if it lies over
anything. -/
theorem exists_over_at? {bs us ms : Layer} (h : OverAll bs us ms) (way : List String) :
    ∃ b, (b = none ∨ b = at? way bs) ∧ Over b (at? way us) (at? way ms) := by
  induction way generalizing bs us ms with
  | nil => exact ⟨none, Or.inl rfl, .kept none⟩
  | cons k way ih =>
    cases way with
    | nil => exact ⟨_, Or.inr rfl, h k⟩
    | cons j way =>
      rw [at?_cons_cons, at?_cons_cons, at?_cons_cons]
      rcases (h k).entries_eq_or with hsame | ⟨es, hes, hentries⟩
      · refine ⟨none, Or.inl rfl, ?_⟩
        rw [hsame]
        cases at? (j :: way) ((get? ms k).getD .nothing).entries with
        | none => exact .kept none
        | some v => exact .same none v
      · obtain ⟨b, hb, hover⟩ := ih hentries
        refine ⟨b, ?_, hover⟩
        rw [hes]
        exact hb

/-- A value takes the place of what is below, if they are not both tables. -/
theorem Over.eq_some {b m : Option Value} {v : Value} (h : Over b (some v) m)
    (hb : (∀ es, v ≠ .table es) ∨ ∀ es, b ≠ some (.table es)) : m = some v := by
  cases h with
  | same => rfl
  | table _ =>
    rcases hb with hb | hb
    · exact absurd rfl (hb _)
    · exact absurd rfl (hb _)

/-- **The value of a key in a file** is its value over what is built in, if they are not both
tables. -/
theorem at?_merge_of_at?_merge_nil {l : Layer} {way : List String} {v : Value}
    (hv : at? way (l.merge []) = some v)
    (hway : (∀ es, v ≠ .table es) ∨ ∀ es, at? way builtIn ≠ some (.table es)) :
    at? way (l.merge builtIn) = some v := by
  obtain ⟨b, hb, hover⟩ := exists_over_at? (overAll_merge l arrayFree_builtIn) way
  rw [hv] at hover
  refine hover.eq_some (hway.imp_right fun hbuiltIn es hes => ?_)
  rcases hb with rfl | rfl
  · cases hes
  · exact hbuiltIn es hes

/-! ## 2. What is left

All entries with the last name are taken out, and of the entries before it all are changed that have
the name on the way.  So leaving out is a filter at the end and a map on the way there, whether or
not there are tables; and it does not need keys to be distinct.
-/

/-- Changes what is in a table. -/
def Value.inside (f : Layer → Layer) : Value → Value
  | .table es => .table (f es)
  | v => v

/-- Changes what is in the table under one name. -/
def insideAt (k : String) (f : Layer → Layer) (name : String) (v : Value) : Value :=
  if name = k then v.inside f else v

/-- A layer without the key at the end of a way. -/
def Layer.without : List String → Layer → Layer
  | [], l => l
  | [k], l => l.filter fun e => e.1 ≠ k
  | k :: way, l => l.map fun e => (e.1, insideAt k (Layer.without way) e.1 e.2)

theorem without_cons_cons (k j : String) (way : List String) (l : Layer) :
    Layer.without (k :: j :: way) l
      = l.map fun e => (e.1, insideAt k (Layer.without (j :: way)) e.1 e.2) := rfl

theorem insideAt_self (k : String) (f : Layer → Layer) (v : Value) :
    insideAt k f k v = v.inside f := if_pos rfl

theorem insideAt_of_ne {k name : String} (h : name ≠ k) (f : Layer → Layer) (v : Value) :
    insideAt k f name v = v := if_neg h

theorem entries_inside {f : Layer → Layer} (hf : f [] = []) (v : Value) :
    (v.inside f).entries = f v.entries := by
  cases v with
  | table es => rfl
  | _ => exact hf.symm

theorem without_nil (way : List String) : Layer.without way [] = [] := by
  cases way with
  | nil => rfl
  | cons k way => cases way <;> rfl

theorem without_without (way : List String) (l : Layer) :
    Layer.without way (Layer.without way l) = Layer.without way l := by
  induction way generalizing l with
  | nil => rfl
  | cons k way ih =>
    cases way with
    | nil => simp only [Layer.without, List.filter_filter, Bool.and_self]
    | cons j way =>
      rw [without_cons_cons, without_cons_cons, List.map_map]
      refine List.map_congr_left fun e _ => congrArg (Prod.mk e.1) ?_
      dsimp only [Function.comp]
      by_cases hk : e.1 = k
      · rw [hk, insideAt_self, insideAt_self]
        cases e.2 with
        | table es => exact congrArg Value.table (ih es)
        | _ => rfl
      · rw [insideAt_of_ne hk, insideAt_of_ne hk]

theorem without_cons_self (k : String) (v : Value) (es : Layer) :
    Layer.without [k] ((k, v) :: es) = Layer.without [k] es :=
  List.filter_cons_of_neg (by simp)

theorem without_cons_of_ne {k j : String} (h : j ≠ k) (v : Value) (es : Layer) :
    Layer.without [k] ((j, v) :: es) = (j, v) :: Layer.without [k] es :=
  List.filter_cons_of_pos (by simpa using h)

theorem get?_without_of_ne {k j : String} (h : j ≠ k) (es : Layer) :
    get? (Layer.without [k] es) j = get? es j := by
  induction es with
  | nil => rfl
  | cons e es ih =>
    obtain ⟨i, v⟩ := e
    by_cases hi : i = k
    · subst hi
      rw [without_cons_self, ih, get?_cons, if_neg (Ne.symm h)]
    · rw [without_cons_of_ne hi, get?_cons, get?_cons, ih]

section Same

variable {k : String} {way : List String} {l l' : Layer}

theorem mem_of_without_eq (h : Layer.without (k :: way) l = Layer.without (k :: way) l')
    {e : String × Value} (he : e ∈ l) (hk : e.1 ≠ k) : e ∈ l' := by
  cases way with
  | nil =>
    rw [Layer.without, Layer.without] at h
    have hmem : e ∈ l.filter fun e => e.1 ≠ k := List.mem_filter.mpr ⟨he, by simpa using hk⟩
    rw [h] at hmem
    exact (List.mem_filter.mp hmem).1
  | cons j way =>
    rw [without_cons_cons, without_cons_cons] at h
    have hmem := List.mem_map_of_mem
      (f := fun e : String × Value => (e.1, insideAt k (Layer.without (j :: way)) e.1 e.2)) he
    rw [h] at hmem
    obtain ⟨e', he', heq⟩ := List.mem_map.mp hmem
    obtain ⟨hname, hvalue⟩ := Prod.mk.inj heq
    rw [insideAt_of_ne hk, insideAt_of_ne (hname ▸ hk)] at hvalue
    rwa [← Prod.ext hname hvalue]

/-- Values under other names are the same. -/
theorem get?_eq_of_without_eq (h : Layer.without (k :: way) l = Layer.without (k :: way) l')
    {j : String} (hj : j ≠ k) : get? l j = get? l' j := by
  have hother : ∀ m : Layer, get? (Layer.without (k :: way) m) j = get? m j := by
    intro m
    cases way with
    | nil => exact get?_without_of_ne hj m
    | cons i way =>
      rw [without_cons_cons, get?_map (insideAt k (Layer.without (i :: way)))]
      rw [funext (insideAt_of_ne hj (Layer.without (i :: way)))]
      exact Option.map_id' ..
  rw [← hother l, h, hother]

/-- A table on the way is a table in both, and differs below at most. -/
theorem exists_table_of_without_eq {j : String}
    (h : Layer.without (k :: j :: way) l = Layer.without (k :: j :: way) l') {es : Layer}
    (hes : get? l k = some (.table es)) :
    ∃ es', get? l' k = some (.table es') ∧
      Layer.without (j :: way) es = Layer.without (j :: way) es' := by
  have hself : ∀ m : Layer, get? (Layer.without (k :: j :: way) m) k
      = (get? m k).map (Value.inside (Layer.without (j :: way))) := by
    intro m
    rw [without_cons_cons, get?_map (insideAt k (Layer.without (j :: way)))]
    rw [funext (insideAt_self k (Layer.without (j :: way)))]
  have hl' := hself l'
  rw [← h, hself l, hes, Option.map_some, Value.inside] at hl'
  cases hv : get? l' k with
  | none =>
    rw [hv] at hl'
    cases hl'
  | some v =>
    rw [hv, Option.map_some] at hl'
    cases v with
    | table es' => exact ⟨es', rfl, Value.table.inj (Option.some.inj hl')⟩
    | _ => cases hl'

end Same

/-! ## 3. Leaving out and merging

A merge alters entries one after the other.  To alter an entry that is left out afterwards is as
good as not to alter it, and any other alteration can be made before or after.  On the way to the
key the same holds by recursion, for changes of values that respect merging (`map_mergeEntries`).

Files may spell a way as a key on their top level, which would be merged along this way.
`Layer.Plain` leaves such keys out.
-/

/-- A change of one entry, without a key. -/
theorem without_alter (k j : String) (f : Value → Value) (es : Layer) :
    Layer.without [k] (alter j f es) = if j = k then Layer.without [k] es
      else alter j f (Layer.without [k] es) := by
  by_cases hj : j = k
  · subst hj
    rw [if_pos rfl]
    induction es with
    | nil => exact without_cons_self j _ []
    | cons e es ih =>
      obtain ⟨i, v⟩ := e
      rw [alter]
      split
      · next hi => rw [hi, without_cons_self, without_cons_self]
      · next hi => rw [without_cons_of_ne hi, without_cons_of_ne hi, ih]
  · rw [if_neg hj]
    induction es with
    | nil => exact without_cons_of_ne hj _ []
    | cons e es ih =>
      obtain ⟨i, v⟩ := e
      rw [alter]
      split
      · next hi =>
        rw [hi, without_cons_of_ne hj, without_cons_of_ne hj, alter, if_pos rfl]
      · next hi =>
        by_cases hk : i = k
        · rw [hk, without_cons_self, without_cons_self, ih]
        · rw [without_cons_of_ne hk, without_cons_of_ne hk, ih, alter, if_neg hi]

/-- Entries without a key, merged. -/
theorem without_mergeEntries_one (k : String) (es old : Layer) :
    Layer.without [k] (mergeEntries es old)
      = mergeEntries (Layer.without [k] es) (Layer.without [k] old) := by
  induction es generalizing old with
  | nil => rw [mergeEntries, without_nil, mergeEntries]
  | cons e es ih =>
    obtain ⟨j, v⟩ := e
    rw [mergeEntries, ih, without_alter]
    by_cases hj : j = k
    · rw [if_pos hj, hj, without_cons_self]
    · rw [if_neg hj, without_cons_of_ne hj, mergeEntries]

/-- A change of one entry among changed ones. -/
theorem map_alter {g : String → Value → Value} {j : String} {f f' : Value → Value}
    (hf : ∀ v, g j (f v) = f' (g j v)) (hnothing : g j .nothing = .nothing) (es : Layer) :
    ((alter j f es).map fun e => (e.1, g e.1 e.2))
      = alter j f' (es.map fun e => (e.1, g e.1 e.2)) := by
  induction es with
  | nil => simp [alter, hf, hnothing]
  | cons e es ih =>
    obtain ⟨i, v⟩ := e
    rw [alter, List.map_cons, alter]
    by_cases hi : i = j
    · subst hi
      simp [hf]
    · simp [hi, ih]

/-- Leaving something out of the entries of a merged table. -/
theorem inside_mergeValue {f : Layer → Layer} (hnil : f [] = [])
    (hf : ∀ es old, f (mergeEntries es old) = mergeEntries (f es) (f old)) (new old : Value) :
    (mergeValue new old).inside f = mergeValue (new.inside f) (old.inside f) := by
  cases new with
  | table es =>
    rw [mergeValue, Value.inside, Value.inside, mergeValue, hf, entries_inside hnil]
  | _ =>
    rw [mergeValue, Value.inside, mergeValue]
    all_goals
      intro es hes
      cases hes

/-- Changed entries, merged. -/
theorem map_mergeEntries {g : String → Value → Value}
    (hmerge : ∀ j new old, g j (mergeValue new old) = mergeValue (g j new) (g j old))
    (hnothing : ∀ j, g j .nothing = .nothing) (es old : Layer) :
    ((mergeEntries es old).map fun e => (e.1, g e.1 e.2))
      = mergeEntries (es.map fun e => (e.1, g e.1 e.2)) (old.map fun e => (e.1, g e.1 e.2)) := by
  induction es generalizing old with
  | nil => rw [mergeEntries, List.map_nil, mergeEntries]
  | cons e es ih =>
    obtain ⟨j, v⟩ := e
    rw [mergeEntries, ih, List.map_cons, mergeEntries]
    exact congrArg _ (map_alter (hmerge j v) (hnothing j) old)

/-- **Leaving a key out and merging** can be done in any order. -/
theorem without_mergeEntries (way : List String) (es old : Layer) :
    Layer.without way (mergeEntries es old)
      = mergeEntries (Layer.without way es) (Layer.without way old) := by
  induction way generalizing es old with
  | nil => rfl
  | cons k way ih =>
    cases way with
    | nil => exact without_mergeEntries_one k es old
    | cons j way =>
      simp only [without_cons_cons]
      have hnothing : ∀ i, insideAt k (Layer.without (j :: way)) i .nothing = .nothing :=
        fun i => ite_self _
      refine map_mergeEntries (fun i new old => ?_) hnothing es old
      by_cases hi : i = k
      · subst hi
        simp only [insideAt_self, inside_mergeValue (without_nil (j :: way)) ih]
      · simp only [insideAt_of_ne hi]

/-- The keys on the top level are names. -/
def Layer.Plain (l : Layer) : Prop := ∀ e ∈ l, readWay e.1 = (e.1, [])

instance (l : Layer) : Decidable l.Plain := inferInstanceAs (Decidable (∀ e ∈ l, _ = _))

/-- **Files that differ in one key** differ in it over any base. -/
theorem merge_without_eq {l l' : Layer} (hl : l.Plain) (hl' : l'.Plain) {way : List String}
    (h : Layer.without way l = Layer.without way l') (base : Layer) :
    Layer.without way (l.merge base) = Layer.without way (l'.merge base) := by
  rw [merge_eq_mergeEntries hl, merge_eq_mergeEntries hl', without_mergeEntries, h,
    ← without_mergeEntries]

end TestLanes.Settings
