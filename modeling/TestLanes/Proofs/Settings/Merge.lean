import Mathlib.Data.List.Nodup
import TestLanes.Settings.Layer

/-!
# Merging layers key by key

What a layer says on its own is what it gives over nothing.  Over a base it gives the same, except
where it says nothing, and there the base shows: `Over b u m` says this of a value `u` that a layer
gives on its own, the value `b` of the base, and the value `m` that they give together.  Every
change that a merge is made of keeps it (`Respects`), be it a value that takes the place of another
one, a table that is merged, or the end of a way through tables and arrays; so the whole merge does
(`overAll_merge`).  The base must have no arrays, because an item of an array can be changed without
the others.

Merged tables have distinct keys (`distinct_merge`), and an ordinary layer on its own is just itself
(`merge_nil_of_ordinary`).
-/

namespace TestLanes.Settings

/-! ## 1. Lookups

Tables are lists of entries, and the first entry with a name counts.  A change of one name, a filter
by names and a change of all values are each told by what is found afterwards.
-/

theorem get?_cons (name k : String) (v : Value) (es : Layer) :
    get? ((k, v) :: es) name = if k = name then some v else get? es name := by
  by_cases h : k = name <;> simp [get?, h]

/-- **A change of one name** is seen under this name alone. -/
theorem get?_alter (name k : String) (f : Value → Value) (es : Layer) : get? (alter name f es) k
    = if name = k then some (f ((get? es name).getD .nothing)) else get? es k := by
  induction es with
  | nil => exact get?_cons k name _ []
  | cons e es ih =>
    obtain ⟨j, v⟩ := e
    rw [alter]
    split
    · next hj =>
      subst hj
      rw [get?_cons, get?_cons, get?_cons, if_pos rfl]
      split <;> rfl
    · next hj =>
      rw [get?_cons, ih, get?_cons, get?_cons, if_neg hj]
      by_cases hjk : j = k
      · subst hjk
        rw [if_pos rfl, if_pos rfl, if_neg (Ne.symm hj)]
      · rw [if_neg hjk, if_neg hjk]

theorem mem_of_get? {es : Layer} {name : String} {v : Value} (h : get? es name = some v) :
    (name, v) ∈ es := by
  obtain ⟨e, he, rfl⟩ := Option.map_eq_some_iff.mp h
  have hname : e.1 = name := by simpa using List.find?_some he
  exact hname ▸ List.mem_of_find?_eq_some he

theorem isSome_get?_iff {es : Layer} {k : String} :
    (get? es k).isSome = true ↔ k ∈ es.map (·.1) := by
  rw [get?, Option.isSome_map, List.find?_isSome]
  simp

/-- Where only some names are kept, these are found as before. -/
theorem get?_filter (names : List String) (es : Layer) (k : String) :
    get? (es.filter fun e => names.contains e.1) k = if k ∈ names then get? es k else none := by
  induction es with
  | nil => exact (ite_self none).symm
  | cons e es ih =>
    obtain ⟨j, v⟩ := e
    rw [get?_cons]
    by_cases hj : j ∈ names
    · rw [List.filter_cons_of_pos (by simpa using hj), get?_cons, ih]
      by_cases hjk : j = k
      · subst hjk
        rw [if_pos rfl, if_pos rfl, if_pos hj]
      · rw [if_neg hjk, if_neg hjk]
    · rw [List.filter_cons_of_neg (by simpa using hj), ih]
      by_cases hjk : j = k
      · subst hjk
        rw [if_neg hj, if_neg hj]
      · rw [if_neg hjk]

theorem get?_map (f : String → Value → Value) (es : Layer) (k : String) :
    get? (es.map fun e => (e.1, f e.1 e.2)) k = (get? es k).map (f k) := by
  induction es with
  | nil => rfl
  | cons e es ih =>
    obtain ⟨j, v⟩ := e
    rw [List.map_cons, get?_cons, get?_cons, ih]
    by_cases hjk : j = k
    · subst hjk
      rw [if_pos rfl, if_pos rfl]
      rfl
    · rw [if_neg hjk, if_neg hjk]

/-! ## 2. A layer over a base

The relation is defined by its three ways to hold, and on tables it asks for the same of all
entries.  The proofs follow a merge into its parts: the change of an entry, of the entries of a
table, at the end of a way, and of a value by another one.  The last of these is a mutual recursion
on the new value and its entries, for whatever lies below.

An index into an array is the one change that depends on the items below it.  A base without arrays
has none to offer, so the items are those of the layer itself.
-/

/-- No array can be reached through tables. -/
inductive Value.ArrayFree : Value → Prop
  | leaf {v : Value} (items : v.items = []) (entries : v.entries = []) : ArrayFree v
  | table {es : Layer} (entries : ∀ k v, get? es k = some v → ArrayFree v) : ArrayFree (.table es)

/-- What a base gives, what a layer gives on its own, and what it gives over the base. -/
inductive Over : Option Value → Option Value → Option Value → Prop
  /-- The layer says nothing. -/
  | kept (b : Option Value) : Over b none b
  /-- What the layer says takes the place of the base. -/
  | same (b : Option Value) (v : Value) : Over b (some v) (some v)
  /-- Both are tables. -/
  | table {bs us ms : Layer} (entries : ∀ k, Over (get? bs k) (get? us k) (get? ms k)) :
      Over (some (.table bs)) (some (.table us)) (some (.table ms))

/-- Entries that are so for each name. -/
def OverAll (bs us ms : Layer) : Prop := ∀ k, Over (get? bs k) (get? us k) (get? ms k)

/-- A change of a value that can be made before or after the base is taken into account. -/
def Respects (f : Value → Value) : Prop :=
  ∀ b u m, (∀ v, b = some v → v.ArrayFree) → Over b u m →
    Over b (some (f (u.getD .nothing))) (some (f (m.getD .nothing)))

/-- The entries of a layer's value are those that it gives over a base, or a table is below. -/
theorem Over.entries_eq_or {b u m : Option Value} (h : Over b u m) :
    (u.getD .nothing).entries = (m.getD .nothing).entries ∨
      ∃ bs, b = some (.table bs) ∧
        OverAll bs (u.getD .nothing).entries (m.getD .nothing).entries := by
  cases h with
  | kept b =>
    cases b with
    | none => exact Or.inl rfl
    | some v =>
      cases v with
      | table bs => exact Or.inr ⟨bs, rfl, fun k => .kept _⟩
      | _ => exact Or.inl rfl
  | same b v => exact Or.inl rfl
  | table hentries => exact Or.inr ⟨_, rfl, hentries⟩

theorem Over.items_eq {b u m : Option Value} (hb : ∀ v, b = some v → v.ArrayFree) (h : Over b u m) :
    (u.getD .nothing).items = (m.getD .nothing).items := by
  cases h with
  | kept b =>
    cases b with
    | none => rfl
    | some v =>
      cases hb v rfl with
      | leaf hitems _ => exact hitems.symm
      | table _ => rfl
  | same b v => rfl
  | table _ => rfl

variable {f : Value → Value} {bs us ms : Layer}

/-- A change of one entry. -/
theorem overAll_alter (hf : Respects f) (hb : ∀ k v, get? bs k = some v → v.ArrayFree)
    (h : OverAll bs us ms) (name : String) : OverAll bs (alter name f us) (alter name f ms) := by
  intro k
  rw [get?_alter, get?_alter]
  split
  · next hk =>
    subst hk
    exact hf _ _ _ (hb name) (h name)
  · exact h k

/-- A change of the entries of a table. -/
theorem respects_table {g : Layer → Layer}
    (hg : ∀ bs us ms, (∀ k v, get? bs k = some v → v.ArrayFree) → OverAll bs us ms →
      OverAll bs (g us) (g ms)) : Respects fun v => .table (g v.entries) := by
  intro b u m hb h
  rcases h.entries_eq_or with hsame | ⟨bs, rfl, hall⟩
  · dsimp only
    rw [hsame]
    exact .same b _
  · refine .table (hg bs _ _ ?_ hall)
    cases hb _ rfl with
    | leaf _ hentries =>
      obtain rfl : bs = [] := hentries
      intro k v hv
      cases hv
    | table hentries => exact hentries

/-- **Changes at the end of a way.** -/
theorem respects_alterAt (hf : Respects f) (hops : List Hop) : Respects (alterAt f hops) := by
  induction hops with
  | nil => exact hf
  | cons hop hops ih =>
    cases hop with
    | key name => exact respects_table fun _ _ _ hb h => overAll_alter ih hb h name
    | index i =>
      intro b u m hb h
      rw [alterAt, alterAt, h.items_eq hb]
      exact .same b _

mutual

/-- **A value over an older one.** -/
theorem respects_mergeValue : (v : Value) → Respects (mergeValue v)
  | .table es => by
    intro b u m hb h
    rw [mergeValue, mergeValue]
    exact respects_table (fun _ _ _ hbs hall => overAll_mergeEntries es hbs hall) b u m hb h
  | .nothing | .boolean _ | .integer _ | .real _ | .text _ | .array _ => by
    intro b u m _ _
    rw [mergeValue, mergeValue]
    · exact .same b _
    all_goals exact fun _ hes => nomatch hes

theorem overAll_mergeEntries : (es : List (String × Value)) → {bs us ms : Layer} →
    (∀ k v, get? bs k = some v → v.ArrayFree) → OverAll bs us ms →
      OverAll bs (mergeEntries es us) (mergeEntries es ms)
  | [], _, _, _, _, h => by
    rw [mergeEntries, mergeEntries]
    exact h
  | (k, v) :: es, _, _, _, hb, h => by
    rw [mergeEntries, mergeEntries]
    exact overAll_mergeEntries es hb (overAll_alter (respects_mergeValue v) hb h k)

end

/-- **A layer over a base** gives what it says on its own, and the base where it says nothing. -/
theorem overAll_merge (l : Layer) {base : Layer} (hb : ∀ k v, get? base k = some v → v.ArrayFree) :
    OverAll base (l.merge []) (l.merge base) := by
  have hstart : ∀ us ms, OverAll base us ms → OverAll base (l.merge us) (l.merge ms) := by
    induction l with
    | nil => exact fun us ms h => h
    | cons e l ih =>
      intro us ms h
      exact ih _ _ (overAll_alter (respects_alterAt (respects_mergeValue e.2) _) hb h _)
  exact hstart [] base fun k => .kept _

/-! ## 3. Distinct keys

A merge alters a table entry by entry, and an entry with a new name is put at the end.  So names
never come up twice, in the table and, by the same recursion as before, in the tables inside.
-/

/-- The tables that can be reached through tables have distinct keys. -/
inductive Value.Distinct : Value → Prop
  | intro {v : Value} (keys : (v.entries.map (·.1)).Nodup)
      (entries : ∀ e ∈ v.entries, Distinct e.2) : Distinct v

/-- Entries with distinct keys and values that have distinct keys. -/
abbrev Layer.Distinct (es : Layer) : Prop := (Value.table es).Distinct

/-- A value without entries. -/
theorem Value.Distinct.of_entries_eq_nil {v : Value} (h : v.entries = []) : v.Distinct := by
  refine .intro ?_ ?_ <;> simp [h]

/-- The entries of a value are as distinct as those of a table. -/
theorem Value.Distinct.entries_distinct {v : Value} (h : v.Distinct) :
    Layer.Distinct v.entries := by
  obtain ⟨hkeys, hentries⟩ := h
  exact .intro hkeys hentries

theorem Value.Distinct.of_get? {es : Layer} (h : Layer.Distinct es) {name : String} {v : Value}
    (hv : get? es name = some v) : v.Distinct := by
  obtain ⟨-, hentries⟩ := h
  exact hentries _ (mem_of_get? hv)

/-- What a changed table holds: what it held, and the changed value. -/
theorem mem_alter {name : String} {es : Layer} {e : String × Value} (h : e ∈ alter name f es) :
    e ∈ es ∨ e = (name, f ((get? es name).getD .nothing)) := by
  induction es with
  | nil => exact Or.inr (List.mem_singleton.mp h)
  | cons x es ih =>
    obtain ⟨k, v⟩ := x
    rw [alter] at h
    rw [get?_cons]
    split at h
    · next hk =>
      rw [if_pos hk]
      rcases List.mem_cons.mp h with rfl | h
      · exact Or.inr (by rw [hk]; rfl)
      · exact Or.inl (List.mem_cons_of_mem _ h)
    · next hk =>
      rw [if_neg hk]
      rcases List.mem_cons.mp h with rfl | h
      · exact Or.inl List.mem_cons_self
      · exact (ih h).imp_left (List.mem_cons_of_mem _)

/-- No key comes up twice. -/
theorem nodup_alter {name : String} {es : Layer} (h : (es.map (·.1)).Nodup) :
    ((alter name f es).map (·.1)).Nodup := by
  induction es with
  | nil => simp [alter]
  | cons e es ih =>
    obtain ⟨k, v⟩ := e
    obtain ⟨hk, hes⟩ := List.nodup_cons.mp h
    rw [alter]
    split
    · exact h
    · next hne =>
      refine List.nodup_cons.mpr ⟨fun hmem => ?_, ih hes⟩
      obtain ⟨e, he, hkey⟩ := List.mem_map.mp hmem
      rcases mem_alter he with hold | rfl
      · exact hk (hkey ▸ List.mem_map_of_mem hold)
      · exact hne hkey.symm

theorem distinct_alter {name : String} {es : Layer} (hf : ∀ v, v.Distinct → (f v).Distinct)
    (h : es.Distinct) : Layer.Distinct (alter name f es) := by
  obtain ⟨hkeys, hentries⟩ := id h
  refine .intro (nodup_alter hkeys) fun e he => ?_
  rcases mem_alter he with hold | rfl
  · exact hentries e hold
  · refine hf _ ?_
    cases hv : get? es name with
    | none => exact .of_entries_eq_nil rfl
    | some v => exact .of_get? h hv

theorem distinct_alterAt (hf : ∀ v, v.Distinct → (f v).Distinct) (hops : List Hop) :
    ∀ v : Value, v.Distinct → (alterAt f hops v).Distinct := by
  induction hops with
  | nil => exact hf
  | cons hop hops ih =>
    intro v hv
    cases hop with
    | key name => exact distinct_alter ih hv.entries_distinct
    | index i => exact .of_entries_eq_nil rfl

mutual

theorem distinct_mergeValue : (new old : Value) → old.Distinct → (mergeValue new old).Distinct
  | .table es, old, h => by
    rw [mergeValue]
    exact distinct_mergeEntries es _ h.entries_distinct
  | .nothing, _, _ | .boolean _, _, _ | .integer _, _, _ | .real _, _, _ | .text _, _, _
  | .array _, _, _ => by
    rw [mergeValue]
    · exact .of_entries_eq_nil rfl
    all_goals exact fun _ hes => nomatch hes

theorem distinct_mergeEntries : (es : List (String × Value)) → (old : Layer) → old.Distinct →
    Layer.Distinct (mergeEntries es old)
  | [], _, h => by
    rw [mergeEntries]
    exact h
  | (k, v) :: es, old, h => by
    rw [mergeEntries]
    exact distinct_mergeEntries es _ (distinct_alter (distinct_mergeValue v) h)

end

/-- **Merged layers have distinct keys**, whatever is merged. -/
theorem distinct_merge (l : Layer) {base : Layer} (h : base.Distinct) :
    Layer.Distinct (l.merge base) := by
  induction l generalizing base with
  | nil => exact h
  | cons e l ih => exact ih (distinct_alter (distinct_alterAt (distinct_mergeValue e.2) _) h)

/-! ## 4. Ordinary layers

Over nothing every name is new as long as no name repeats, and entries are put one behind the other
as they come.
-/

/-- A new name comes last. -/
theorem alter_of_notMem {name : String} {es : Layer} (h : name ∉ es.map (·.1)) :
    alter name f es = es ++ [(name, f .nothing)] := by
  induction es with
  | nil => rfl
  | cons e es ih =>
    obtain ⟨k, v⟩ := e
    have hne : k ≠ name := fun heq => h (heq ▸ List.mem_cons_self)
    rw [alter, if_neg hne, ih fun hmem => h (List.mem_cons_of_mem _ hmem), List.cons_append]

mutual

/-- A value with distinct keys is not changed by being put where nothing was. -/
theorem mergeValue_nothing : (v : Value) → v.Distinct → mergeValue v .nothing = v
  | .table es, h => by
    have hentries : Value.nothing.entries = [] := rfl
    rw [mergeValue, hentries, mergeEntries_of_disjoint es [] h (fun _ _ => List.not_mem_nil),
      List.nil_append]
  | .nothing, _ | .boolean _, _ | .integer _, _ | .real _, _ | .text _, _ | .array _, _ => by
    rw [mergeValue]
    exact fun _ hes => nomatch hes

/-- New entries come behind the old ones. -/
theorem mergeEntries_of_disjoint : (es : List (String × Value)) → (old : Layer) →
    Layer.Distinct es → (∀ k ∈ es.map (·.1), k ∉ old.map (·.1)) → mergeEntries es old = old ++ es
  | [], old, _, _ => by rw [mergeEntries, List.append_nil]
  | (k, v) :: es, old, h, hnew => by
    obtain ⟨hkeys, hentries⟩ := h
    obtain ⟨hk, hes⟩ := List.nodup_cons.mp hkeys
    have hv := mergeValue_nothing v (hentries (k, v) List.mem_cons_self)
    have hrest : Layer.Distinct es := .intro hes fun e he => hentries e (List.mem_cons_of_mem _ he)
    rw [mergeEntries, alter_of_notMem (hnew k List.mem_cons_self), hv,
      mergeEntries_of_disjoint es _ hrest fun j hj => ?_, List.append_assoc, List.singleton_append]
    rw [List.map_append, List.mem_append, not_or]
    refine ⟨hnew j (List.mem_cons_of_mem _ hj), fun hjk => ?_⟩
    obtain rfl := List.mem_singleton.mp hjk
    exact hk hj

end

/-- A layer as files usually are: the keys on its top level are names, and no key comes up twice. -/
structure Layer.Ordinary (l : Layer) : Prop where
  names : ∀ e ∈ l, readWay e.1 = (e.1, [])
  distinct : l.Distinct

/-- Where keys are names, entries are merged as those of a table are. -/
theorem merge_eq_mergeEntries {l : Layer} (h : ∀ e ∈ l, readWay e.1 = (e.1, [])) (old : Layer) :
    l.merge old = mergeEntries l old := by
  induction l generalizing old with
  | nil =>
    rw [mergeEntries]
    rfl
  | cons e l ih =>
    obtain ⟨k, v⟩ := e
    have hk : readWay k = (k, []) := h (k, v) List.mem_cons_self
    rw [mergeEntries, ← ih fun e he => h e (List.mem_cons_of_mem _ he)]
    simp only [Layer.merge, List.foldl_cons, hk, alterAt]

/-- **An ordinary layer on its own** is the layer. -/
theorem merge_nil_of_ordinary {l : Layer} (h : l.Ordinary) : l.merge [] = l := by
  rw [merge_eq_mergeEntries h.names, mergeEntries_of_disjoint l [] h.distinct fun _ _ =>
    List.not_mem_nil, List.nil_append]

end TestLanes.Settings
