import TestLanes.Json.Decode

/-!
# Fields by their names

A structure that is given by an object with one field for each of its names is decoded to the values
of these fields, in the order of the names (`structure?_object`).  Lists are decoded item by item,
where every item must have a result (`mapM_eq_some_map`, `exists_of_mem_mapM`).
-/

namespace TestLanes.Json

/-! ## 1. Lists item by item -/

/-- Where every item has a result, the list of the results is the result. -/
theorem mapM_eq_some_map {f : α → Option β} {g : α → β} {l : List α} (h : ∀ x ∈ l, f x = some (g x)) :
    l.mapM f = some (l.map g) := by
  induction l with
  | nil => rfl
  | cons x l ih =>
    rw [List.mapM_cons, h x List.mem_cons_self, ih fun y hy => h y (List.mem_cons_of_mem x hy)]
    rfl

theorem mapM_eq_some_self {f : α → Option α} {l : List α} (h : ∀ x ∈ l, f x = some x) :
    l.mapM f = some l := by
  rw [mapM_eq_some_map (g := id) h, List.map_id]

/-- Every result is that of an item. -/
theorem exists_of_mem_mapM {f : α → Option β} {l : List α} {ys : List β} (h : l.mapM f = some ys)
    {y : β} (hy : y ∈ ys) : ∃ x ∈ l, f x = some y := by
  induction l generalizing ys with
  | nil =>
    cases h
    exact absurd hy List.not_mem_nil
  | cons x l ih =>
    rw [List.mapM_cons, Option.bind_eq_bind, Option.bind_eq_some_iff] at h
    obtain ⟨z, hz, h⟩ := h
    obtain ⟨zs, hzs, heq⟩ := Option.bind_eq_some_iff.mp h
    cases heq
    rcases List.mem_cons.mp hy with rfl | hy
    · exact ⟨x, List.mem_cons_self, hz⟩
    · obtain ⟨w, hw, hwy⟩ := ih hzs hy
      exact ⟨w, List.mem_cons_of_mem x hw, hwy⟩

/-! ## 2. Fields -/

/-- A field is found under its name, if the names are distinct. -/
theorem field?_of_mem {fields : List (String × Value)} (hnames : (fields.map (·.1)).Nodup)
    {f : String × Value} (hf : f ∈ fields) : field? fields f.1 = some (some f.2) := by
  have hfilter : fields.filter (·.1 = f.1) = [f] := by
    induction fields with
    | nil => exact absurd hf List.not_mem_nil
    | cons x fields ih =>
      obtain ⟨hx, hrest⟩ := List.nodup_cons.mp hnames
      rcases List.mem_cons.mp hf with rfl | hmem
      · rw [List.filter_cons_of_pos (by simp), List.filter_eq_nil_iff.mpr]
        intro g hg hname
        exact hx (List.mem_map.mpr ⟨g, hg, of_decide_eq_true hname⟩)
      · have hne : x.1 ≠ f.1 := fun h => hx (List.mem_map.mpr ⟨f, hmem, h.symm⟩)
        rw [List.filter_cons_of_neg (by simpa using hne), ih hrest hmem]
  rw [field?, hfilter]

theorem mem_of_field? {fields : List (String × Value)} {name : String} {v : Value}
    (h : field? fields name = some (some v)) : (name, v) ∈ fields := by
  unfold field? at h
  split at h
  · cases h
  · next k w hfilter =>
    cases h
    have hmem : (k, v) ∈ fields.filter (·.1 = name) := hfilter ▸ List.mem_singleton_self _
    obtain ⟨hfields, hname⟩ := List.mem_filter.mp hmem
    cases of_decide_eq_true hname
    exact hfields
  · cases h

/-- **A structure has the values of the fields with its names**, in their order. -/
theorem structure?_object {names : List String} {values : List Value} (hnames : names.Nodup)
    (hlength : names.length = values.length) :
    (Value.object (names.zip values)).structure? names = some (values.map some) := by
  have hfst : (names.zip values).map (·.1) = names := List.map_fst_zip (Nat.le_of_eq hlength)
  have hsnd : (names.zip values).map (·.2) = values := List.map_snd_zip (Nat.le_of_eq hlength.symm)
  have hfields := mapM_eq_some_map (f := fun f => field? (names.zip values) f.1)
    (g := fun f => some f.2) (l := names.zip values) fun f hf => field?_of_mem (hfst.symm ▸ hnames) hf
  calc (Value.object (names.zip values)).structure? names
      = names.mapM (field? (names.zip values)) := rfl
    _ = ((names.zip values).map (·.1)).mapM (field? (names.zip values)) := by rw [hfst]
    _ = (names.zip values).mapM fun f => field? (names.zip values) f.1 := List.mapM_map
    _ = some ((names.zip values).map fun f => some f.2) := hfields
    _ = some (((names.zip values).map (·.2)).map some) := by rw [List.map_map]; rfl
    _ = some (values.map some) := by rw [hsnd]

/-! ## 3. Parts that are there -/

variable {decode : Value → Option α}

theorem exists_of_required {o : Option Value} {a : α} (h : required decode o = some a) :
    ∃ v, o = some v ∧ decode v = some a := by
  cases o with
  | none => cases h
  | some v => exact ⟨v, rfl, h⟩

/-- A field that has a result is there. -/
theorem exists_of_nullable {o : Option Value} {a : α} (h : nullable decode o = some (some a)) :
    ∃ v, o = some v ∧ decode v = some a := by
  unfold nullable at h
  split at h
  · cases h
  · cases h
  · next v _ =>
    obtain ⟨x, hx, heq⟩ := Option.map_eq_some_iff.mp h
    cases heq
    exact ⟨v, rfl, hx⟩

theorem exists_of_items? {v : Value} {xs : List α} (h : v.items? decode = some xs) :
    ∃ items, v = .array items ∧ items.mapM decode = some xs := by
  cases v with
  | array items => exact ⟨items, rfl, h⟩
  | _ => cases h

end TestLanes.Json
