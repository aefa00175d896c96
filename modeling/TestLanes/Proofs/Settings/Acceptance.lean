import TestLanes.Proofs.Settings.Resolve

/-!
# What profiles accept

A profile can be read if it is a table or an array, if each of its fields has a value that is
accepted for this field, and if none is missing that must be there (`exists_decodeBase_iff`) or none
too many is there (`exists_decodeCustom_iff`).

The fault of a field that does not accept its value is known from the field and its place
(`Place.faultOf`).  One field is taken over or is at fault (`take_eq`), and of several faults in a
row of fields the first one counts (`foldlM_take_eq_error`): in a table with one wrong value this is
its fault (`decodeFields_table_eq_error`), and in an array it is that of the first wrong item
(`decodeFields_array_eq_error`), or else the array has the wrong length (`arrayFault?`).
-/

namespace TestLanes.Settings

/-! ## 1. Faults

Of a reading that may fail only the fault is of interest here.  `failure?` takes it out, and the
lemmas say how it passes through a sequence of readings and through the readings of a list.
-/

/-- The fault of a reading that fails. -/
def failure? {α : Type} : Except Fault α → Option Fault
  | .ok _ => none
  | .error fault => some fault

section Failure

variable {α β : Type} {x : Except Fault α} {fault : Fault}

theorem failure?_eq_none_iff : failure? x = none ↔ ∃ a, x = .ok a := by
  cases x <;> simp [failure?]

theorem failure?_eq_some_iff : failure? x = some fault ↔ x = .error fault := by
  cases x <;> simp [failure?]

/-- **The first fault counts**, if the second reading does not depend on the first one. -/
theorem failure?_bind {f : α → Except Fault β} {o : Option Fault} (h : ∀ a, failure? (f a) = o) :
    failure? (x >>= f) = (failure? x).or o := by
  cases x with
  | ok a => exact h a
  | error fault => rfl

theorem failure?_bind_ok (g : α → β) : failure? (x >>= fun a => .ok (g a)) = failure? x := by
  cases x <;> rfl

theorem failure?_mapM (f : α → Except Fault β) (as : List α) :
    failure? (as.mapM f) = as.findSome? fun a => failure? (f a) := by
  induction as with
  | nil => rfl
  | cons a as ih =>
    rw [List.mapM_cons, List.findSome?_cons, ← ih]
    cases f a with
    | ok b => exact failure?_bind_ok fun bs => b :: bs
    | error fault => rfl

end Failure

/-! ## 2. One field

A value is accepted for a field if it counts as missing there, or is read.  `take_eq` tells these
two cases from the third one, in which the field is at fault; for the fault the first two are one
case.
-/

theorem Field.eq_of_name_eq {f g : Field} (h : f.name = g.name) : f = g := by
  rw [← Option.some_inj, ← find?_all.mpr h, find?_all.mpr rfl]

/-- Whether a value is taken for a field. -/
def Taking.accepts (t : Taking) (f : Field) (v : Value) : Bool :=
  t.mayBeNothing f && v.isNothing || (t.read f v).isSome

/-- What more there is to say about a wrong value of a field. -/
def Field.detail : Field → Value → Option String
  | .parallelism, v =>
    match Parallelism.ofGiven (givenOf v) with
    | .error (.text cause) => some cause.message
    | _ => none
  | _, _ => none

/-- The fault of a field that does not accept its value. -/
def Place.faultOf (p : Place) (f : Field) : Fault := ⟨p.path, f.detail p.value⟩

variable {t : Taking} {c c' : CustomProfile} {f : Field} {p : Place} {fault : Fault}

/-- **One field** stays as it is, is set, or is at fault. -/
theorem take_eq (t : Taking) (c : CustomProfile) (f : Field) (p : Place) : c.take t f p =
    if t.mayBeNothing f && p.value.isNothing then .ok c
    else (t.read f p.value).elim (.error (p.faultOf f)) fun a => .ok (c.set f a) := by
  unfold CustomProfile.take
  split
  · rfl
  · have hplace : ∀ {α : Type} (read? : Value → Option α) (set : α → CustomProfile),
        (p.read read? >>= fun a => .ok (set a))
          = (read? p.value).elim (.error ⟨p.path, none⟩) fun a => .ok (set a) := by
      intro α read? set
      rw [Place.read]
      cases read? p.value <;> rfl
    cases f with
    | parallelism =>
      dsimp only
      rw [decodeParallelism, Taking.read, Place.faultOf, Field.detail]
      cases Parallelism.ofGiven (givenOf p.value) with
      | ok a => rfl
      | error e => cases e <;> rfl
    | granularity => exact hplace t.granularity? fun a => { c with granularity := some a }
    | inclusions => exact hplace t.boolean? fun a => { c with inclusions := some a }
    | estimate => exact hplace t.boolean? fun a => { c with estimate := some a }
    | stage => exact hplace t.text? fun a => { c with stage := some a }
    | splitsDirectory => exact hplace t.text? fun a => { c with splitsDirectory := some a }

theorem exists_take_eq_ok (c : CustomProfile) (h : t.accepts f p.value = true) :
    ∃ c', c.take t f p = .ok c' := by
  rw [take_eq]
  rw [Taking.accepts, Bool.or_eq_true] at h
  by_cases hnothing : (t.mayBeNothing f && p.value.isNothing) = true
  · exact ⟨c, if_pos hnothing⟩
  · obtain ⟨a, ha⟩ := Option.isSome_iff_exists.mp (h.resolve_left hnothing)
    exact ⟨c.set f a, by rw [if_neg hnothing, ha, Option.elim_some]⟩

theorem take_eq_error (c : CustomProfile) (h : t.accepts f p.value = false) :
    c.take t f p = .error (p.faultOf f) := by
  rw [Taking.accepts, Bool.or_eq_false_iff] at h
  have hread : t.read f p.value = none := by simpa using h.2
  rw [take_eq, h.1, hread]
  rfl

/-! ## 3. A row of fields

A row is gone through from the front until a value is not accepted.  What has been taken over up to
there does not matter for the fault, so the inductions are for any profile to start with.
-/

section Rows

variable {fields : List (Field × Place)}

/-- **Of several faults in a row** the first one counts. -/
theorem foldlM_take_eq_error {q : Field × Place}
    (h : fields.find? (fun q => !t.accepts q.1 q.2.value) = some q) (c : CustomProfile) :
    fields.foldlM (fun c (field, place) => c.take t field place) c = .error (q.2.faultOf q.1) := by
  induction fields generalizing c with
  | nil => cases h
  | cons q' fields ih =>
    obtain ⟨f, p⟩ := q'
    rw [List.foldlM_cons]
    dsimp only
    cases haccepts : t.accepts f p.value with
    | true =>
      obtain ⟨c', htake⟩ := exists_take_eq_ok c haccepts
      rw [List.find?_cons_of_neg (by simpa using haccepts)] at h
      rw [htake]
      exact ih h c'
    | false =>
      rw [List.find?_cons_of_pos (by simpa using haccepts)] at h
      obtain rfl := Option.some.inj h
      rw [take_eq_error c haccepts]
      rfl

/-- **A row of fields** is taken over if each of its values is accepted. -/
theorem exists_foldlM_take_iff :
    (∃ c', fields.foldlM (fun c (field, place) => c.take t field place) c = .ok c') ↔
      ∀ q ∈ fields, t.accepts q.1 q.2.value = true := by
  constructor
  · rintro ⟨c', h⟩ q hq
    by_contra hwrong
    obtain ⟨q', hfirst⟩ := Option.isSome_iff_exists.mp
      (List.find?_isSome (p := fun q : Field × Place => !t.accepts q.1 q.2.value).mpr
        ⟨q, hq, by simpa using hwrong⟩)
    rw [foldlM_take_eq_error hfirst] at h
    cases h
  · intro hall
    induction fields generalizing c with
    | nil => exact ⟨c, rfl⟩
    | cons q fields ih =>
      obtain ⟨haccepts, hrest⟩ := List.forall_mem_cons.mp hall
      obtain ⟨c₁, htake⟩ := exists_take_eq_ok c haccepts
      obtain ⟨c', h⟩ := ih (c := c₁) hrest
      exact ⟨c', foldlM_cons_eq_ok_iff.mpr ⟨c₁, htake, h⟩⟩

/-- A field that cannot be nothing is set if it is in the row. -/
theorem isSome_get_iff_of_foldlM (hf : t.mayBeNothing f = false)
    (h : fields.foldlM (fun c (field, place) => c.take t field place) c = .ok c') :
    (c'.get f).isSome = true ↔ (c.get f).isSome = true ∨ f ∈ fields.map (·.1) := by
  induction fields generalizing c with
  | nil =>
    cases h
    simp
  | cons q fields ih =>
    obtain ⟨g, p⟩ := q
    obtain ⟨c₁, htake, hrest⟩ := foldlM_cons_eq_ok_iff.mp h
    rw [ih hrest, List.map_cons, List.mem_cons, ← or_assoc]
    refine or_congr_left ?_
    rcases take_eq_ok htake with ⟨hmay, -, rfl⟩ | ⟨a, -, rfl⟩
    · -- what may be nothing is another field
      refine (or_iff_left ?_).symm
      rintro rfl
      rw [hmay] at hf
      cases hf
    · by_cases hgf : g = f
      · subst hgf
        rw [CustomProfile.get_set_self]
        exact iff_of_true rfl (Or.inr rfl)
      · rw [CustomProfile.get_set_of_ne c a hgf]
        exact (or_iff_left (Ne.symm hgf)).symm

end Rows

/-! ## 4. Profiles

The row of a table lists the keys that are fields, each at the place of its key; the row of an array
goes through the fields and the items side by side.  From a row the lemmas lead to the fields of a
profile, and from these to the two kinds of profiles.  The default profile has to have all fields
but the stage; of other profiles none has to be there, but an array must not have more items than
there are fields.
-/

/-- Whether a value is a table or an array. -/
def Value.isStructure : Value → Bool
  | .table _ | .array _ => true
  | _ => false

/-- A structure has a row of fields, and nothing else has. -/
theorem exists_fields_iff :
    (∃ fields, p.fields Field.all Field.name = .ok fields) ↔ p.value.isStructure = true := by
  rw [Place.fields]
  cases p.value with
  | table es => exact iff_of_true ⟨_, rfl⟩ rfl
  | array vs => exact iff_of_true ⟨_, rfl⟩ rfl
  | _ =>
    refine iff_of_false ?_ Bool.false_ne_true
    rintro ⟨fields, h⟩
    cases h

/-- The fields of a table are at the places of its keys. -/
theorem exists_fields_table (path : String) (es : Layer) :
    ∃ fields, (Place.mk path (.table es)).fields Field.all Field.name = .ok fields ∧
      ∀ q : Field × Place, q ∈ fields ↔
        ∃ e ∈ es, q.1.name = e.1 ∧ q.2 = ⟨path ++ "." ++ e.1, e.2⟩ := by
  refine ⟨_, rfl, ?_⟩
  rintro ⟨f, place⟩
  simp only [List.mem_filterMap, Option.map_eq_some_iff, Field.find?_all, Prod.mk.injEq]
  constructor
  · rintro ⟨e, he, g, hname, rfl, rfl⟩
    exact ⟨e, he, hname, rfl⟩
  · rintro ⟨e, he, hname, rfl⟩
    exact ⟨e, he, f, hname, rfl, rfl⟩

theorem mem_fields_table {es : Layer} {q : Field × Value} :
    q ∈ (Value.table es).fields ↔ ∃ e ∈ es, q.1.name = e.1 ∧ q.2 = e.2 := by
  obtain ⟨fields, hfields, hmem⟩ := exists_fields_table "" es
  obtain ⟨f, v⟩ := q
  rw [← map_fields hfields, List.mem_map]
  constructor
  · rintro ⟨⟨g, place⟩, hq, heq⟩
    obtain ⟨rfl, rfl⟩ := Prod.mk.inj heq
    obtain ⟨e, he, hname, hplace⟩ := (hmem _).mp hq
    exact ⟨e, he, hname, congrArg Place.value hplace⟩
  · rintro ⟨e, he, hname, rfl⟩
    exact ⟨(f, _), (hmem _).mpr ⟨e, he, hname, rfl⟩, rfl⟩

/-- **Fields can be read** if each of their values is accepted. -/
theorem exists_decodeFields_iff : (∃ c, decodeFields t p = .ok c) ↔
    p.value.isStructure = true ∧ ∀ q ∈ p.value.fields, t.accepts q.1 q.2 = true := by
  rw [← exists_fields_iff, decodeFields]
  cases hfields : p.fields Field.all Field.name with
  | error e =>
    refine iff_of_false ?_ ?_
    · rintro ⟨c, h⟩
      cases h
    · rintro ⟨⟨fields, h⟩, -⟩
      cases h
  | ok fields =>
    rw [← map_fields hfields, List.forall_mem_map, and_iff_right ⟨fields, rfl⟩]
    exact exists_foldlM_take_iff

/-- **The fault of a table** with one wrong value is that of this value. -/
theorem decodeFields_table_eq_error {path : String} {es : Layer} {v : Value}
    (hothers : ∀ e ∈ es, e.1 ≠ f.name → ∀ g : Field, g.name = e.1 → t.accepts g e.2 = true)
    (hsingle : ∀ e ∈ es, e.1 = f.name → e.2 = v) (hv : get? es f.name = some v)
    (hwrong : t.accepts f v = false) :
    decodeFields t ⟨path, .table es⟩ = .error ⟨path ++ "." ++ f.name, f.detail v⟩ := by
  obtain ⟨fields, hfields, hmem⟩ := exists_fields_table path es
  rw [decodeFields, hfields]
  have hthere : (f, ⟨path ++ "." ++ f.name, v⟩) ∈ fields :=
    (hmem _).mpr ⟨_, mem_of_get? hv, rfl, rfl⟩
  obtain ⟨q, hfirst⟩ := Option.isSome_iff_exists.mp
    (List.find?_isSome (p := fun q : Field × Place => !t.accepts q.1 q.2.value).mpr
      ⟨_, hthere, by simpa using hwrong⟩)
  refine (foldlM_take_eq_error hfirst {}).trans ?_
  obtain ⟨e, he, hname, hplace⟩ := (hmem q).mp (List.mem_of_find?_eq_some hfirst)
  have hkey : e.1 = f.name := by
    by_contra hkey
    have hfalse := List.find?_some hfirst
    rw [hplace, hothers e he hkey q.1 hname] at hfalse
    cases hfalse
  rw [hplace, Field.eq_of_name_eq (hname.trans hkey), Place.faultOf, hkey, hsingle e he hkey]

/-- The first item of an array that is not accepted for its field, with its number. -/
def wrongItem? (t : Taking) (vs : List Value) : Option ((Field × Value) × Nat) :=
  (Field.all.zip vs).zipIdx.find? fun q => !t.accepts q.1.1 q.1.2

theorem wrongItem?_eq_none_iff {vs : List Value} : wrongItem? t vs = none ↔
    ∀ q ∈ (Value.array vs).fields, t.accepts q.1 q.2 = true := by
  rw [wrongItem?, List.find?_eq_none]
  constructor
  · intro h q hq
    obtain ⟨i, hi, rfl⟩ := List.mem_iff_getElem.mp hq
    simpa using h _ (List.mk_mem_zipIdx_iff_getElem?.mpr (List.getElem?_eq_getElem hi))
  · intro h q hq
    simpa using h q.1 (List.fst_mem_of_mem_zipIdx hq)

/-- **The fault of an array** is that of its first wrong item. -/
theorem decodeFields_array_eq_error {path : String} {vs : List Value} {v : Value} {i : Nat}
    (h : wrongItem? t vs = some ((f, v), i)) : decodeFields t ⟨path, .array vs⟩
      = .error ⟨path ++ "[" ++ toString i ++ "]", f.detail v⟩ := by
  have hfields : (Place.mk path (.array vs)).fields Field.all Field.name
      = .ok ((Field.all.zip vs).zipIdx.map fun q =>
        (q.1.1, ⟨path ++ "[" ++ toString q.2 ++ "]", q.1.2⟩)) :=
    congrArg Except.ok List.mapIdx_eq_zipIdx_map
  rw [decodeFields, hfields]
  refine foldlM_take_eq_error (q := (f, ⟨path ++ "[" ++ toString i ++ "]", v⟩)) ?_ {}
  rw [List.find?_map]
  exact congrArg _ h

/-- The default profile has all fields but the stage. -/
theorem exists_decodeBase_of_fields (h : decodeFields loose p = .ok c)
    (hall : ∀ f, f ≠ .stage → (c.get f).isSome = true) : ∃ base, decodeBase p = .ok base := by
  have hrequire : ∀ {α : Type} {o : Option α}, o.isSome = true → ∃ a, p.require o = .ok a := by
    intro α o ho
    obtain ⟨a, rfl⟩ := Option.isSome_iff_exists.mp ho
    exact ⟨a, rfl⟩
  obtain ⟨parallelism, hparallelism⟩ := hrequire (hall .parallelism (by decide))
  obtain ⟨granularity, hgranularity⟩ := hrequire (hall .granularity (by decide))
  obtain ⟨inclusions, hinclusions⟩ := hrequire (hall .inclusions (by decide))
  obtain ⟨estimate, hestimate⟩ := hrequire (hall .estimate (by decide))
  obtain ⟨directory, hdirectory⟩ := hrequire (hall .splitsDirectory (by decide))
  refine ⟨⟨parallelism, granularity, inclusions, estimate, c.stage, directory⟩, ?_⟩
  rw [decodeBase]
  refine bind_eq_ok_iff.mpr ⟨c, h, ?_⟩
  refine bind_eq_ok_iff.mpr ⟨_, hparallelism, ?_⟩
  refine bind_eq_ok_iff.mpr ⟨_, hgranularity, ?_⟩
  refine bind_eq_ok_iff.mpr ⟨_, hinclusions, ?_⟩
  refine bind_eq_ok_iff.mpr ⟨_, hestimate, ?_⟩
  exact bind_eq_ok_iff.mpr ⟨_, hdirectory, rfl⟩

/-- If one is missing, the default profile is at fault as a whole. -/
theorem decodeBase_eq_error_of_missing (h : decodeFields loose p = .ok c) (hf : f ≠ .stage)
    (hmissing : c.get f = none) : decodeBase p = .error ⟨p.path, none⟩ := by
  rw [decodeBase, h]
  obtain ⟨parallelism, granularity, inclusions, estimate, stage, splitsDirectory⟩ := c
  -- the first field that is missing is at fault, and all faults are the same
  cases parallelism with
  | none => rfl
  | some _ =>
    cases granularity with
    | none => rfl
    | some _ =>
      cases inclusions with
      | none => rfl
      | some _ =>
        cases estimate with
        | none => rfl
        | some _ =>
          cases splitsDirectory with
          | none => rfl
          | some _ =>
            cases f with
            | stage => exact absurd rfl hf
            | _ => cases hmissing

/-- The fields of a row that is read are set. -/
theorem isSome_get_iff_of_decodeFields (hf : t.mayBeNothing f = false)
    (h : decodeFields t p = .ok c) : (c.get f).isSome = true ↔ f ∈ p.value.fields.map (·.1) := by
  rw [decodeFields] at h
  cases hfields : p.fields Field.all Field.name with
  | error e =>
    rw [hfields] at h
    cases h
  | ok fields =>
    rw [hfields] at h
    have hempty : CustomProfile.get {} f = none := by cases f <;> rfl
    rw [isSome_get_iff_of_foldlM hf h, hempty, ← map_fields hfields, List.map_map]
    exact or_iff_right Bool.false_ne_true

/-- **The default profile can be read** if its values are accepted and only the stage is missing. -/
theorem exists_decodeBase_iff : (∃ base, decodeBase p = .ok base) ↔
    (p.value.isStructure = true ∧ ∀ q ∈ p.value.fields, loose.accepts q.1 q.2 = true) ∧
      ∀ f, f ≠ .stage → f ∈ p.value.fields.map (·.1) := by
  rw [← exists_decodeFields_iff]
  have hloose : ∀ f, f ≠ .stage → loose.mayBeNothing f = false := fun f hf => decide_eq_false hf
  constructor
  · rintro ⟨base, h⟩
    obtain ⟨c, hc, -⟩ := bind_eq_ok_iff.mp h
    refine ⟨⟨c, hc⟩, fun f hf => (isSome_get_iff_of_decodeFields (hloose f hf) hc).mp ?_⟩
    by_contra hnone
    rw [decodeBase_eq_error_of_missing hc hf (by simpa using hnone)] at h
    cases h
  · rintro ⟨⟨c, hc⟩, hall⟩
    exact exists_decodeBase_of_fields hc fun f hf =>
      (isSome_get_iff_of_decodeFields (hloose f hf) hc).mpr (hall f hf)

/-- **Another profile can be read** if its values are accepted and are not too many. -/
theorem exists_decodeCustom_iff : (∃ c, decodeCustom p = .ok c) ↔
    (p.value.isStructure = true ∧ ∀ q ∈ p.value.fields, strict.accepts q.1 q.2 = true) ∧
      hasTooMany p.value = false := by
  rw [← exists_decodeFields_iff, decodeCustom]
  simp only [bind_eq_ok_iff]
  constructor
  · rintro ⟨c, c', hc', h⟩
    refine ⟨⟨c', hc'⟩, ?_⟩
    by_contra hmany
    rw [if_pos (by simpa using hmany)] at h
    cases h
  · rintro ⟨⟨c, hc⟩, hmany⟩
    exact ⟨c, c, hc, by rw [hmany]; rfl⟩

/-! ## 5. Profiles that are arrays

An array gives the first fields, as many as it has items.  A default profile needs all of them,
since the last one may not be missing, and any other profile needs no more than there are.  In both
cases a wrong item counts first.
-/

/-- A short array lacks the last field. -/
theorem splitsDirectory_notMem_zip {vs : List Value} (h : vs.length < Field.all.length) :
    Field.splitsDirectory ∉ (Field.all.zip vs).map (·.1) := by
  have htake : (Field.all.zip vs).map (·.1) = Field.all.take vs.length := by
    rw [List.zip_eq_zip_take_min, Nat.min_eq_right (Nat.le_of_lt h), List.take_length,
      List.map_fst_zip (List.length_take_le _ _)]
  have hlast : ∀ n < Field.all.length, Field.splitsDirectory ∉ Field.all.take n := by decide
  rw [htake]
  exact hlast _ h

/-- What is wrong with an array that stands for a profile: its first wrong item, or else the number
of items. -/
def arrayFault? (t : Taking) (fits : Bool) (path : String) (vs : List Value) : Option Fault :=
  match wrongItem? t vs with
  | some ((f, v), i) => some ⟨path ++ "[" ++ toString i ++ "]", f.detail v⟩
  | none => if fits then none else some ⟨path, none⟩

/-- An array is a default profile if its items are right and it is long enough. -/
theorem failure?_decodeBase_array (path : String) (vs : List Value) :
    failure? (decodeBase ⟨path, .array vs⟩)
      = arrayFault? loose (Field.all.length ≤ vs.length) path vs := by
  rw [arrayFault?]
  split
  · next f v i hwrong =>
    rw [failure?_eq_some_iff, decodeBase, decodeFields_array_eq_error hwrong]
    rfl
  · next hright =>
    have hall := wrongItem?_eq_none_iff.mp hright
    by_cases hlength : Field.all.length ≤ vs.length
    · rw [if_pos (decide_eq_true hlength), failure?_eq_none_iff]
      refine exists_decodeBase_iff.mpr ⟨⟨rfl, hall⟩, fun f _ => ?_⟩
      dsimp only [Value.fields]
      rw [List.map_fst_zip hlength]
      cases f <;> decide
    · rw [if_neg (by simpa using hlength), failure?_eq_some_iff]
      obtain ⟨c, hc⟩ := (exists_decodeFields_iff (p := ⟨path, .array vs⟩)).mpr ⟨rfl, hall⟩
      have hmissing : c.get .splitsDirectory = none := by
        rw [← Option.not_isSome_iff_eq_none, isSome_get_iff_of_decodeFields rfl hc]
        exact splitsDirectory_notMem_zip (Nat.not_le.mp hlength)
      exact decodeBase_eq_error_of_missing hc (by decide) hmissing

/-- An array is another profile if its items are right and it is not too long. -/
theorem failure?_decodeCustom_array (path : String) (vs : List Value) :
    failure? (decodeCustom ⟨path, .array vs⟩)
      = arrayFault? strict (vs.length ≤ Field.all.length) path vs := by
  rw [arrayFault?]
  split
  · next f v i hwrong =>
    rw [failure?_eq_some_iff, decodeCustom, decodeFields_array_eq_error hwrong]
    rfl
  · next hright =>
    have hall := wrongItem?_eq_none_iff.mp hright
    by_cases hlength : vs.length ≤ Field.all.length
    · rw [if_pos (decide_eq_true hlength), failure?_eq_none_iff]
      exact exists_decodeCustom_iff.mpr ⟨⟨rfl, hall⟩, decide_eq_false (Nat.not_lt.mpr hlength)⟩
    · rw [if_neg (by simpa using hlength), failure?_eq_some_iff]
      obtain ⟨c, hc⟩ := (exists_decodeFields_iff (p := ⟨path, .array vs⟩)).mpr ⟨rfl, hall⟩
      rw [decodeCustom, hc]
      exact if_pos (decide_eq_true (Nat.not_le.mp hlength))

end TestLanes.Settings
