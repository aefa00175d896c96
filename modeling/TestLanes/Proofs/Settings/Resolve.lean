import TestLanes.Proofs.Steps
import TestLanes.Proofs.Settings.Merge
import TestLanes.Settings.Load

/-!
# Settings resolve field by field

A profile has a value for each field: what the file says for the profile, else what it says for the
default one, else what is built in (`get_of_resolve`).

What a file says for a profile is `given`, read off the file alone; what it is read as depends on
whether values must be of the very kind (`stated`).  The way there follows the layers: the default
profile is that of the file over the built-in one, field by field (`given_or_builtIn`), and the
others are those of the file.

The lemmas speak of a field as a parameter.  `Field.Kind` is the type of its values, and the two
kinds of profiles, the reading of a value and the view from the root of a workspace are functions of
the field; so there is one proof for all six fields, and a case for each only where a definition
lists them.
-/

namespace TestLanes.Settings

open Files (Disk join)

/-! ## 1. Fields

Fields of the three kinds of profiles, as functions of the field.  To set a field changes this one
and no other, which is all that the reading of profiles needs to know of the records.
-/

/-- What the value of a field is. -/
@[reducible] def Field.Kind : Field → Type
  | .parallelism => Parallelism
  | .granularity => Granularity
  | .inclusions | .estimate => Bool
  | .stage | .splitsDirectory => String

theorem Field.nodup_all : all.Nodup := by decide

theorem Field.find?_all {key : String} {f : Field} :
    all.find? (fun g => g.name = key) = some f ↔ f.name = key := by
  constructor
  · intro h
    simpa using List.find?_some h
  · rintro rfl
    cases f <;> decide

/-- What is set for a field. -/
def CustomProfile.get (c : CustomProfile) : (f : Field) → Option f.Kind
  | .parallelism => c.parallelism
  | .granularity => c.granularity
  | .inclusions => c.inclusions
  | .estimate => c.estimate
  | .stage => c.stage
  | .splitsDirectory => c.splitsDirectory

/-- Sets a field. -/
def CustomProfile.set (c : CustomProfile) : (f : Field) → f.Kind → CustomProfile
  | .parallelism, a => { c with parallelism := some a }
  | .granularity, a => { c with granularity := some a }
  | .inclusions, a => { c with inclusions := some a }
  | .estimate, a => { c with estimate := some a }
  | .stage, a => { c with stage := some a }
  | .splitsDirectory, a => { c with splitsDirectory := some a }

theorem CustomProfile.get_set_self (c : CustomProfile) (f : Field) (a : f.Kind) :
    (c.set f a).get f = some a := by
  cases f <;> rfl

theorem CustomProfile.get_set_of_ne (c : CustomProfile) {f g : Field} (a : f.Kind) (h : f ≠ g) :
    (c.set f a).get g = c.get g := by
  cases f <;> cases g <;> first | rfl | exact absurd rfl h

/-- What the default profile has for a field. -/
def BaseProfile.get (base : BaseProfile) : (f : Field) → Option f.Kind
  | .parallelism => some base.parallelism
  | .granularity => some base.granularity
  | .inclusions => some base.inclusions
  | .estimate => some base.estimate
  | .stage => base.stage
  | .splitsDirectory => some base.splitsDirectory

/-- What a profile with nothing left open has for a field. -/
def Profile.get (p : Profile) : (f : Field) → Option f.Kind
  | .parallelism => some p.options.parallelism
  | .granularity => some p.options.granularity
  | .inclusions => some p.options.inclusions
  | .estimate => some p.options.estimate
  | .stage => p.options.stage
  | .splitsDirectory => some p.splitsDirectory

/-- A directory as seen from the root of the workspace; other values are as they are. -/
def Field.seenFrom (root : String) : (f : Field) → f.Kind → f.Kind
  | .splitsDirectory, s => join root s
  | .parallelism, a => a
  | .granularity, a => a
  | .inclusions, a => a
  | .estimate, a => a
  | .stage, a => a

/-- A profile has what is set in it, and else what the default one has. -/
theorem get_resolve (base : BaseProfile) (c : CustomProfile) (root name : String) (depth : Nat)
    (f : Field) : (base.resolve c root name depth).get f
      = ((c.get f).or (base.get f)).map (f.seenFrom root) := by
  cases f with
  | stage =>
    exact (Option.map_id' (x := c.stage.or base.stage)).symm
  | _ =>
    simp only [Profile.get, BaseProfile.resolve, CustomProfile.get, BaseProfile.get, Option.or_some,
      Option.map_some, Field.seenFrom]

/-! ## 2. Values of fields

A profile may be written as a table, where a field has its key, or as an array, where it has its
number.  Fields are taken over one after the other into an empty profile; by induction on the row, a
field has what its own value is read as, since no field is in the row twice.

A value that is nothing counts as missing for some fields, and for these fields nothing is read from
it (`Taking.Sound`).  So both ways to say nothing come to the same.
-/

/-- What a value gives for a field: in a table by its key, in an array by its number. -/
def Value.field? : Value → Field → Option Value
  | .table es, f => get? es f.name
  | .array vs, f => ((Field.all.zip vs).find? fun q => q.1 = f).map (·.2)
  | _, _ => none

/-- What a value is read as for a field, if it is taken in this way. -/
def Taking.read (t : Taking) : (f : Field) → Value → Option f.Kind
  | .parallelism, v => (Parallelism.ofGiven (givenOf v)).toOption
  | .granularity, v => t.granularity? v
  | .inclusions, v => t.boolean? v
  | .estimate, v => t.boolean? v
  | .stage, v => t.text? v
  | .splitsDirectory, v => t.text? v

/-- Nothing is read as nothing where it counts as missing. -/
structure Taking.Sound (t : Taking) : Prop where
  nothing : ∀ f, t.mayBeNothing f = true → t.read f .nothing = none

theorem sound_loose : loose.Sound := by
  refine ⟨fun f hf => ?_⟩
  obtain rfl : f = .stage := of_decide_eq_true hf
  rfl

theorem sound_strict : strict.Sound := by
  refine ⟨fun f _ => ?_⟩
  cases f <;> rfl

/-- A field that is taken over is set to what its value is read as, unless this is nothing. -/
theorem take_eq_ok {t : Taking} {c c' : CustomProfile} {f : Field} {p : Place}
    (h : c.take t f p = .ok c') :
    (t.mayBeNothing f = true ∧ p.value = .nothing ∧ c' = c) ∨
      ∃ a, t.read f p.value = some a ∧ c' = c.set f a := by
  unfold CustomProfile.take at h
  split at h
  · next hnothing =>
    obtain ⟨hmay, hvalue⟩ := Bool.and_eq_true_iff.mp hnothing
    refine Or.inl ⟨hmay, ?_, (Except.ok.inj h).symm⟩
    cases hv : p.value with
    | nothing => rfl
    | _ => rw [hv] at hvalue; cases hvalue
  · refine Or.inr ?_
    have hplace : ∀ {α : Type} (read? : Value → Option α) (set : α → CustomProfile),
        (p.read read? >>= fun a => .ok (set a)) = .ok c' →
          ∃ a, read? p.value = some a ∧ c' = set a := by
      intro α read? set hread
      rw [Place.read] at hread
      cases ha : read? p.value with
      | none =>
        rw [ha] at hread
        cases hread
      | some a =>
        rw [ha] at hread
        exact ⟨a, rfl, (Except.ok.inj hread).symm⟩
    cases f with
    | parallelism =>
      dsimp only at h
      rw [decodeParallelism] at h
      cases ha : Parallelism.ofGiven (givenOf p.value) with
      | error e =>
        rw [ha] at h
        cases e <;> cases h
      | ok a =>
        rw [ha] at h
        exact ⟨a, by rw [Taking.read, ha]; rfl, (Except.ok.inj h).symm⟩
    | granularity => exact hplace t.granularity? (fun a => { c with granularity := some a }) h
    | inclusions => exact hplace t.boolean? (fun a => { c with inclusions := some a }) h
    | estimate => exact hplace t.boolean? (fun a => { c with estimate := some a }) h
    | stage => exact hplace t.text? (fun a => { c with stage := some a }) h
    | splitsDirectory => exact hplace t.text? (fun a => { c with splitsDirectory := some a }) h

/-- **One field after another.**  Of fields that are all different, each is read, and a profile has
what it is read as. -/
theorem get_of_foldlM {t : Taking} (ht : t.Sound) {fields : List (Field × Place)}
    (hnodup : (fields.map (·.1)).Nodup) {c c' : CustomProfile}
    (h : fields.foldlM (fun c (field, place) => c.take t field place) c = .ok c') (f : Field) :
    c'.get f = ((fields.find? fun q => q.1 = f).bind fun q => t.read f q.2.value).or (c.get f) ∧
      ∀ q, (fields.find? fun q => q.1 = f) = some q →
        q.2.value = .nothing ∨ (t.read f q.2.value).isSome = true := by
  induction fields generalizing c with
  | nil =>
    cases h
    exact ⟨rfl, fun q hq => nomatch hq⟩
  | cons q fields ih =>
    obtain ⟨g, p⟩ := q
    obtain ⟨hg, hnodup⟩ := List.nodup_cons.mp hnodup
    obtain ⟨c₁, htake, hrest⟩ := foldlM_cons_eq_ok_iff.mp h
    obtain ⟨hget, hread⟩ := ih hnodup hrest
    rw [hget]
    by_cases hgf : g = f
    · subst hgf
      have hnone : (fields.find? fun q => q.1 = g) = none := by
        refine List.find?_eq_none.mpr fun q hq heq => hg ?_
        exact List.mem_map.mpr ⟨q, hq, of_decide_eq_true heq⟩
      have hfirst : ((g, p) :: fields).find? (fun q => q.1 = g) = some (g, p) :=
        List.find?_cons_of_pos (by simp)
      rw [hnone, hfirst]
      rcases take_eq_ok htake with ⟨hmay, hvalue, rfl⟩ | ⟨a, ha, rfl⟩
      · refine ⟨?_, fun q hq => Or.inl (Option.some.inj hq ▸ hvalue)⟩
        rw [Option.bind_some, hvalue, ht.nothing g hmay]
        rfl
      · refine ⟨?_, fun q hq => Or.inr (Option.some.inj hq ▸ ?_)⟩
        · rw [Option.bind_some, ha, CustomProfile.get_set_self]
          rfl
        · rw [ha]
          rfl
    · rw [List.find?_cons_of_neg (by simpa using hgf)]
      refine ⟨?_, hread⟩
      rcases take_eq_ok htake with ⟨-, -, rfl⟩ | ⟨a, -, rfl⟩
      · rfl
      · rw [CustomProfile.get_set_of_ne c a hgf]

/-! ## 3. Profiles as data

From the row of fields to the value of a profile: the row has the fields that the value gives, in
its order, and no field twice if the keys of the value are distinct.  The default profile must have
all fields but the stage and takes values loosely; any other profile may leave fields out, and takes
them strictly.

`of_decode_eq_ok` takes apart what is read as settings: the table of profiles, the default profile
in it, and the others.
-/

/-- The fields that a value gives, each with its value. -/
def Value.fields : Value → List (Field × Value)
  | .table es => es.filterMap fun (key, v) =>
      (Field.all.find? (Field.name · = key)).map fun field => (field, v)
  | .array vs => Field.all.zip vs
  | _ => []

/-- These are the fields that are read. -/
theorem map_fields {p : Place} {fields : List (Field × Place)}
    (h : p.fields Field.all Field.name = .ok fields) :
    (fields.map fun q => (q.1, q.2.value)) = p.value.fields := by
  have harray : ∀ (l : List (Field × Value)) (path : Nat → String),
      ((l.mapIdx fun i (field, v) => (field, Place.mk (path i) v)).map fun q => (q.1, q.2.value))
        = l := by
    intro l
    induction l with
    | nil => exact fun _ => rfl
    | cons x l ih =>
      intro path
      rw [List.mapIdx_cons, List.map_cons, ih fun i => path (i + 1)]
  rw [Place.fields] at h
  split at h
  · next es hvalue =>
    obtain rfl := Except.ok.inj h
    rw [hvalue, Value.fields, List.map_filterMap]
    simp only [Option.map_map]
    rfl
  · next vs hvalue =>
    obtain rfl := Except.ok.inj h
    rw [hvalue, Value.fields]
    exact harray _ _
  · cases h

theorem find?_fields (v : Value) (f : Field) :
    ((v.fields.find? fun q => q.1 = f).map (·.2)) = v.field? f := by
  cases v with
  | table es =>
    rw [Value.fields, Value.field?, get?, List.find?_filterMap]
    have hkey : ∀ e : String × Value,
        (((Field.all.find? (Field.name · = e.1)).map fun field => (field, e.2)).any
          fun q => q.1 = f) = decide (e.1 = f.name) := by
      intro e
      cases hfound : Field.all.find? (Field.name · = e.1) with
      | none =>
        refine (decide_eq_false fun hname => ?_).symm
        rw [hname, Field.find?_all.mpr rfl] at hfound
        cases hfound
      | some g =>
        have hg := Field.find?_all.mp hfound
        refine decide_eq_decide.mpr ⟨?_, fun hname => ?_⟩
        · rintro rfl
          exact hg.symm
        · rw [hname, Field.find?_all.mpr rfl] at hfound
          exact (Option.some.inj hfound).symm
    simp only [hkey]
    cases hfound : es.find? fun e => e.1 = f.name with
    | none => rfl
    | some e =>
      have hname : e.1 = f.name := by simpa using List.find?_some hfound
      simp only [Option.bind_some, hname, Field.find?_all.mpr rfl, Option.map_some]
  | array vs => rfl
  | _ => rfl

/-- No field is given twice, if no key is. -/
theorem nodup_fields {v : Value} (h : v.Distinct) : (v.fields.map (·.1)).Nodup := by
  have harray : ∀ (fs : List Field) (vs : List Value), ((fs.zip vs).map (·.1)).Sublist fs := by
    intro fs
    induction fs with
    | nil => exact fun vs => List.Sublist.refl _
    | cons f fs ih =>
      intro vs
      cases vs with
      | nil => exact List.nil_sublist _
      | cons v vs => exact (ih vs).cons_cons f
  cases v with
  | table es =>
    obtain ⟨hkeys, -⟩ := h
    have hfields : (Value.table es).fields.map (·.1)
        = (es.map (·.1)).filterMap fun key => Field.all.find? (Field.name · = key) := by
      rw [Value.fields, List.map_filterMap, List.filterMap_map]
      simp only [Option.map_map]
      refine List.filterMap_congr fun e _ => ?_
      exact Option.map_id' ..
    rw [hfields]
    refine hkeys.filterMap fun key key' f hkey hkey' => ?_
    exact (Field.find?_all.mp hkey).symm.trans (Field.find?_all.mp hkey')
  | array vs => exact Field.nodup_all.sublist (harray _ vs)
  | _ => exact List.nodup_nil

/-- **A profile has what its fields are read as**, and every field that is there is read, or is
nothing. -/
theorem get_of_decodeFields {t : Taking} (ht : t.Sound) {p : Place} {c : CustomProfile}
    (hdistinct : p.value.Distinct) (h : decodeFields t p = .ok c) (f : Field) :
    c.get f = (p.value.field? f).bind (t.read f) ∧
      ∀ v, p.value.field? f = some v → v = .nothing ∨ (t.read f v).isSome = true := by
  unfold decodeFields at h
  cases hfields : p.fields Field.all Field.name with
  | error e =>
    rw [hfields] at h
    cases h
  | ok fields =>
    rw [hfields] at h
    have hmap := map_fields hfields
    have hnodup : (fields.map (·.1)).Nodup := by
      have hvalues := nodup_fields hdistinct
      rwa [← hmap, List.map_map] at hvalues
    have hfind : ((fields.find? fun q => q.1 = f).map fun q => q.2.value) = p.value.field? f := by
      rw [← find?_fields, ← hmap, List.find?_map, Option.map_map]
      rfl
    obtain ⟨hget, hread⟩ := get_of_foldlM ht hnodup h f
    have hempty : CustomProfile.get {} f = none := by cases f <;> rfl
    rw [← hfind, hget, hempty, Option.or_none]
    refine ⟨?_, fun v hv => ?_⟩
    · rw [Option.bind_map]
      rfl
    · obtain ⟨q, hq, rfl⟩ := Option.map_eq_some_iff.mp hv
      exact hread q hq

/-- The default profile has what its fields are read as. -/
theorem get_of_decodeBase {p : Place} {base : BaseProfile} (hdistinct : p.value.Distinct)
    (h : decodeBase p = .ok base) (f : Field) :
    base.get f = (p.value.field? f).bind (loose.read f) ∧
      ∀ v, p.value.field? f = some v → v = .nothing ∨ (loose.read f v).isSome = true := by
  have hrequire : ∀ {α : Type} {o : Option α} {a : α}, p.require o = .ok a → o = some a := by
    intro α o a ho
    cases o with
    | none => cases ho
    | some b => exact congrArg some (Except.ok.inj ho)
  unfold decodeBase at h
  obtain ⟨c, hc, h⟩ := bind_eq_ok_iff.mp h
  obtain ⟨_, hparallelism, h⟩ := bind_eq_ok_iff.mp h
  obtain ⟨_, hgranularity, h⟩ := bind_eq_ok_iff.mp h
  obtain ⟨_, hinclusions, h⟩ := bind_eq_ok_iff.mp h
  obtain ⟨_, hestimate, h⟩ := bind_eq_ok_iff.mp h
  obtain ⟨_, hdirectory, h⟩ := bind_eq_ok_iff.mp h
  obtain rfl := Except.ok.inj h
  obtain ⟨hget, hread⟩ := get_of_decodeFields sound_loose hdistinct hc f
  refine ⟨?_, hread⟩
  rw [← hget]
  cases f with
  | parallelism => exact (hrequire hparallelism).symm
  | granularity => exact (hrequire hgranularity).symm
  | inclusions => exact (hrequire hinclusions).symm
  | estimate => exact (hrequire hestimate).symm
  | stage => rfl
  | splitsDirectory => exact (hrequire hdirectory).symm

theorem get_of_decodeCustom {p : Place} {c : CustomProfile} (hdistinct : p.value.Distinct)
    (h : decodeCustom p = .ok c) (f : Field) :
    c.get f = (p.value.field? f).bind (strict.read f) ∧
      ∀ v, p.value.field? f = some v → v = .nothing ∨ (strict.read f v).isSome = true := by
  obtain ⟨c', hc, h⟩ := bind_eq_ok_iff.mp h
  split at h
  · cases h
  · obtain rfl := Except.ok.inj h
    exact get_of_decodeFields sound_strict hdistinct hc f

/-- **The other profiles are those of the table**, each as its value says. -/
theorem find?_customs {es : Layer} {customs : List (String × CustomProfile)}
    (h : decodeCustoms es = .ok customs) {name : String} (hname : name ≠ defaultName) :
    match get? es name with
    | some v => ∃ c, decodeCustom ⟨name, v⟩ = .ok c ∧
        (customs.find? fun q => q.1 = name).map (·.2) = some c
    | none => (customs.find? fun q => q.1 = name).map (·.2) = none := by
  unfold decodeCustoms at h
  induction es generalizing customs with
  | nil =>
    cases h
    rfl
  | cons e es ih =>
    obtain ⟨key, v⟩ := e
    rw [get?_cons]
    by_cases hkey : key = defaultName
    · rw [List.filter_cons_of_neg (by simpa using hkey)] at h
      have hne : key ≠ name := fun heq => hname (heq ▸ hkey)
      rw [if_neg hne]
      exact ih h
    · rw [List.filter_cons_of_pos (by simpa using hkey), List.mapM_cons] at h
      obtain ⟨q, hq, h⟩ := bind_eq_ok_iff.mp h
      obtain ⟨rest, hrest, h⟩ := bind_eq_ok_iff.mp h
      obtain rfl := Except.ok.inj h
      dsimp only at hq
      cases hc : decodeCustom ⟨key, v⟩ with
      | error fault =>
        rw [hc] at hq
        cases hq
      | ok c =>
        rw [hc] at hq
        obtain rfl := Except.ok.inj hq
        by_cases heq : key = name
        · subst heq
          rw [if_pos rfl, List.find?_cons_of_pos (by simp)]
          exact ⟨c, hc, rfl⟩
        · rw [if_neg heq, List.find?_cons_of_neg (by simpa using heq)]
          exact ih hrest

/-- What settings must have to be read. -/
theorem of_decode_eq_ok {l : Layer} {s : Profiles} (h : decode l = .ok s) :
    ∃ es v, get? l "profile" = some (.table es) ∧ get? es defaultName = some v ∧
      decodeBase ⟨"profile." ++ defaultName, v⟩ = .ok s.base ∧
      decodeCustoms es = .ok s.customs := by
  unfold decode at h
  extract_lets profiles at h
  have hdepth : ∃ depth, profiles depth = .ok s := by
    split at h
    · obtain ⟨depth, -, h⟩ := bind_eq_ok_iff.mp h
      exact ⟨depth, h⟩
    · exact ⟨_, h⟩
  obtain ⟨depth, h⟩ := hdepth
  simp only [profiles, topField] at h
  cases hprofile : get? l "profile" with
  | none =>
    rw [hprofile] at h
    cases h
  | some v =>
    rw [hprofile, Option.map_some] at h
    dsimp only at h
    split at h
    · next es =>
      cases hdefault : get? es defaultName with
      | none =>
        rw [hdefault] at h
        cases h
      | some v =>
        rw [hdefault] at h
        obtain ⟨base, hbase, h⟩ := bind_eq_ok_iff.mp h
        obtain ⟨customs, hcustoms, h⟩ := bind_eq_ok_iff.mp h
        obtain rfl := Except.ok.inj h
        exact ⟨es, v, rfl, hdefault, hbase, hcustoms⟩
    · cases h

/-! ## 4. What a file says

A file is merged over what is built in before anything is read.  What it says by itself is told by
the same merge over nothing, and how the two belong together is known of merging (`overAll_merge`).
What is built in meets the conditions for this: it has no arrays, and its keys are distinct.

In what is built in there is the default profile only.  So the value of any other profile is the
file's, and that of the default profile is the file's over the built-in table, unless the file has
something in its place that is no table.
-/

/-- The value of a profile. -/
def profileIn (l : Layer) (name : String) : Option Value :=
  (get? l "profile").bind fun v => get? v.entries name

/-- What a file gives for a field of a profile, all by itself. -/
def given (l : Layer) (name : String) (f : Field) : Option Value :=
  (profileIn (l.merge []) name).bind (·.field? f)

/-- How the values of a profile are taken. -/
def takingOf (name : String) : Taking := if name = defaultName then loose else strict

/-- What a file states for a field of a profile. -/
def stated (l : Layer) (name : String) (f : Field) : Option f.Kind :=
  (given l name f).bind ((takingOf name).read f)

/-- The built-in value of a field. -/
def builtInValue (f : Field) : Option f.Kind :=
  ((profileIn builtIn defaultName).bind (·.field? f)).bind (loose.read f)

theorem arrayFree_builtIn : ∀ k v, get? builtIn k = some v → v.ArrayFree := by
  have hleaves : ∀ {es : Layer}, (∀ e ∈ es, e.2.items = [] ∧ e.2.entries = []) →
      ∀ k v, get? es k = some v → v.ArrayFree := by
    intro es hes k v hv
    obtain ⟨hitems, hentries⟩ := hes _ (mem_of_get? hv)
    exact .leaf hitems hentries
  intro k v hv
  rcases List.mem_cons.mp (mem_of_get? hv) with heq | hmem
  · obtain ⟨rfl, rfl⟩ := Prod.mk.inj heq
    exact .table (hleaves (by simp [Value.items, Value.entries]))
  · obtain ⟨rfl, rfl⟩ := Prod.mk.inj (List.mem_singleton.mp hmem)
    refine .table fun k v hv => ?_
    obtain ⟨rfl, rfl⟩ := Prod.mk.inj (List.mem_singleton.mp (mem_of_get? hv))
    exact .table (hleaves (by simp [Value.items, Value.entries]))

theorem distinct_builtIn : builtIn.Distinct := by
  have hleaves : ∀ {es : Layer}, (es.map (·.1)).Nodup → (∀ e ∈ es, e.2.entries = []) →
      es.Distinct := by
    intro es hkeys hes
    exact .intro hkeys fun e he => .of_entries_eq_nil (hes e he)
  refine .intro (by decide) fun e he => ?_
  rcases List.mem_cons.mp he with rfl | he
  · exact hleaves (by decide) (by simp [Value.entries])
  · obtain rfl := List.mem_singleton.mp he
    refine .intro (by decide) fun e he => ?_
    obtain rfl := List.mem_singleton.mp he
    exact hleaves (by decide) (by simp [Value.entries])

/-- The built-in default profile, as a table. -/
def builtInDefault : Layer :=
  [("parallelism", .text "count:4"), ("granularity", .text "class"),
    ("generate-inclusions", .boolean false), ("estimate-tests-from-files", .boolean false),
    ("splits-dir", .text "target/lanesplit")]

/-- **The profiles of a file over the built-in ones**: the default profile over the built-in
default, and the others by themselves. -/
theorem over_profileIn {l es : Layer} {v : Value}
    (hprofile : get? (l.merge builtIn) "profile" = some (.table es))
    (hdefault : get? es defaultName = some v) (name : String) :
    Over (if name = defaultName then some (.table builtInDefault) else none)
      (profileIn (l.merge []) name) (get? es name) := by
  have hbase : ∀ n, get? [(defaultName, Value.table builtInDefault)] n
      = if n = defaultName then some (.table builtInDefault) else none := by
    intro n
    rw [get?_cons]
    by_cases hn : defaultName = n
    · rw [if_pos hn, if_pos hn.symm]
    · rw [if_neg hn, if_neg (Ne.symm hn)]
      rfl
  have hover := overAll_merge l arrayFree_builtIn "profile"
  rw [hprofile, show get? builtIn "profile"
    = some (.table [(defaultName, .table builtInDefault)]) from rfl] at hover
  rw [profileIn, ← hbase name]
  generalize get? (l.merge []) "profile" = u at hover
  cases hover with
  | kept => exact .kept _
  | same =>
    -- what takes the place of all profiles has a default one
    by_cases hname : name = defaultName
    · subst hname
      rw [Option.bind_some, Value.entries, hdefault]
      exact .same _ v
    · rw [hbase, if_neg hname, Option.bind_some, Value.entries]
      cases get? es name with
      | none => exact .kept none
      | some w => exact .same none w
  | table hentries => exact hentries name

/-- A field of the default profile is given by the file, or else the built-in one is kept. -/
theorem given_or_builtIn {u : Option Value} {m : Value}
    (h : Over (some (.table builtInDefault)) u (some m)) (f : Field) :
    u.bind (·.field? f) = m.field? f ∨
      u.bind (·.field? f) = none ∧ m.field? f = (Value.table builtInDefault).field? f := by
  cases h with
  | kept => exact Or.inr ⟨rfl, rfl⟩
  | same => exact Or.inl rfl
  | @table _ us ms hentries =>
    have hfield := hentries f.name
    rw [Option.bind_some, Value.field?, Value.field?, Value.field?]
    generalize hb : get? builtInDefault f.name = b at hfield
    generalize get? us f.name = u at hfield
    generalize get? ms f.name = m at hfield
    cases hfield with
    | kept => exact Or.inr ⟨rfl, rfl⟩
    | same => exact Or.inl rfl
    | table _ => cases f <;> simp [builtInDefault, get?, Field.name] at hb

/-! ## 5. The profiles of a file

The parts are put together for settings that can be read: first for the default profile, then for
the others, and then for a profile that is resolved.  With each value comes the fact that what the
file gives is read, or is nothing; so no value is passed over because it is of the wrong kind.
-/

/-- Over nothing a layer gives what it says on its own. -/
theorem Over.eq_of_none {u m : Option Value} (h : Over none u m) : u = m := by
  cases h <;> rfl

variable {l : Layer} {s : Profiles}

/-- **The default profile** has what the file states, and else what is built in. -/
theorem get_base (h : decode (l.merge builtIn) = .ok s) (f : Field) :
    s.base.get f = (stated l defaultName f).or (builtInValue f) ∧
      ∀ v, given l defaultName f = some v → v = .nothing ∨ (loose.read f v).isSome = true := by
  obtain ⟨es, v, hprofile, hdefault, hbase, -⟩ := of_decode_eq_ok h
  have hdistinct : v.Distinct :=
    .of_get? (Value.Distinct.of_get? (distinct_merge l distinct_builtIn) hprofile) hdefault
  obtain ⟨hget, hread⟩ := get_of_decodeBase hdistinct hbase f
  have hover := over_profileIn hprofile hdefault defaultName
  rw [if_pos rfl, hdefault] at hover
  dsimp only at hget hread
  rcases given_or_builtIn hover f with hgiven | ⟨hgiven, hkept⟩
  · rw [← hgiven] at hget hread
    refine ⟨?_, hread⟩
    have hstated : s.base.get f = stated l defaultName f := hget
    rw [hstated]
    cases hvalue : stated l defaultName f with
    | some a => rfl
    | none =>
      -- the only field that may be open is not built in either
      rw [hvalue] at hstated
      cases f with
      | stage => rfl
      | _ => cases hstated
  · have hnone : stated l defaultName f = none := by
      rw [stated, given, hgiven]
      rfl
    refine ⟨?_, fun w hw => ?_⟩
    · rw [hget, hkept, hnone]
      rfl
    · rw [given, hgiven] at hw
      cases hw

/-- **Another profile** has what the file states, and is there if the file has a value for it. -/
theorem get_custom (h : decode (l.merge builtIn) = .ok s) {name : String}
    (hname : name ≠ defaultName) :
    ((s.custom? name).isSome = true ↔ (profileIn (l.merge []) name).isSome = true) ∧
      ∀ c, s.custom? name = some c → ∀ f, c.get f = stated l name f ∧
        ∀ v, given l name f = some v → v = .nothing ∨ (strict.read f v).isSome = true := by
  obtain ⟨es, v, hprofile, hdefault, -, hcustoms⟩ := of_decode_eq_ok h
  have hes : Layer.Distinct es := .of_get? (distinct_merge l distinct_builtIn) hprofile
  have hover := over_profileIn hprofile hdefault name
  rw [if_neg hname] at hover
  have hfound := find?_customs hcustoms hname
  rw [← hover.eq_of_none] at hfound
  rw [Profiles.custom?, if_neg hname]
  cases hown : profileIn (l.merge []) name with
  | none =>
    rw [hown] at hfound
    dsimp only at hfound
    rw [hfound]
    exact ⟨iff_of_false Bool.false_ne_true Bool.false_ne_true, fun c hc => nomatch hc⟩
  | some w =>
    rw [hown] at hfound
    obtain ⟨c, hdecoded, hfound⟩ := hfound
    rw [hfound]
    refine ⟨iff_of_true rfl rfl, fun c' hc' f => ?_⟩
    obtain rfl := Option.some.inj hc'
    have hw : w.Distinct := .of_get? hes (hover.eq_of_none ▸ hown)
    have hgiven : given l name f = w.field? f := by rw [given, hown, Option.bind_some]
    obtain ⟨hget, hread⟩ := get_of_decodeCustom hw hdecoded f
    refine ⟨?_, fun v hv => hread v (hgiven ▸ hv)⟩
    rw [hget, stated, hgiven, takingOf, if_neg hname]

/-- **What a profile has** is what the file states for it, else what the file states for the default
one, else what is built in. -/
theorem get_of_resolve (h : decode (l.merge builtIn) = .ok s) {root name : String} {p : Profile}
    (hp : s.resolve root name = .ok p) (f : Field) :
    p.get f = ((stated l name f).or ((stated l defaultName f).or (builtInValue f))).map
        (f.seenFrom root) ∧
      ∀ v, given l name f = some v → v = .nothing ∨ ((takingOf name).read f v).isSome = true := by
  obtain ⟨hbase, hdefault⟩ := get_base h f
  rw [Profiles.resolve] at hp
  cases hc : s.custom? name with
  | none =>
    rw [hc] at hp
    cases hp
  | some c =>
    rw [hc] at hp
    obtain rfl := Except.ok.inj hp
    rw [get_resolve, hbase, takingOf]
    by_cases hname : name = defaultName
    · subst hname
      rw [Profiles.custom?, if_pos rfl] at hc
      obtain rfl := Option.some.inj hc
      have hempty : CustomProfile.get {} f = none := by cases f <;> rfl
      rw [if_pos rfl, hempty, Option.none_or, ← Option.or_assoc, Option.or_self]
      exact ⟨rfl, hdefault⟩
    · obtain ⟨hget, hread⟩ := (get_custom h hname).2 c hc f
      rw [if_neg hname, hget]
      exact ⟨rfl, hread⟩

/-- A profile is there if it is the default one or the file has a value for it. -/
theorem isOk_resolve_iff (h : decode (l.merge builtIn) = .ok s) (root name : String) :
    (s.resolve root name).isOk = true ↔
      name = defaultName ∨ (profileIn (l.merge []) name).isSome = true := by
  have hresolve : (s.resolve root name).isOk = (s.custom? name).isSome := by
    rw [Profiles.resolve]
    cases s.custom? name <;> rfl
  rw [hresolve]
  by_cases hname : name = defaultName
  · subst hname
    rw [Profiles.custom?, if_pos rfl]
    exact iff_of_true rfl (Or.inl rfl)
  · rw [(get_custom h hname).1]
    exact (or_iff_right hname).symm

/-! ## 6. Files

A file is loaded in three steps: its layer is read from the disk, merged over what is built in, and
decoded.  Only the first one looks at the disk.  A warning is a line said on the way.
-/

/-- What is loaded is read from the layer of the file. -/
theorem of_load_eq_ok {d : Disk} {root : String} {file : Option String} {loaded : Loaded}
    (hlayer : loadLayer d (file.getD (join root usualPath)) file.isSome = .ok l)
    (h : load d root file = .ok loaded) :
    loaded.root = root ∧ decode (l.merge builtIn) = .ok loaded.profiles := by
  unfold load at h
  dsimp only at h
  rw [hlayer] at h
  dsimp only at h
  cases hdecode : decode (l.merge builtIn) with
  | error fault =>
    rw [hdecode] at h
    cases h
  | ok profiles =>
    rw [hdecode] at h
    obtain rfl := Except.ok.inj h
    exact ⟨rfl, rfl⟩

theorem value_loadLogged (d : Disk) (root : String) (file : Option String) :
    (loadLogged d root file).value = load d root file := by
  unfold loadLogged
  cases load d root file with
  | error e => rfl
  | ok loaded =>
    dsimp only
    cases loaded.warning <;> rfl

end TestLanes.Settings
