import TestLanes.Proofs.Settings.Acceptance
import TestLanes.Proofs.Settings.UnknownKeys
import TestLanes.Proofs.Settings.Without

/-!
# The key that is at fault

A key that settings have a meaning for (`Key`) has a fault if its value is not of the type or form
that the key asks for (`Key.fault?`).  Let settings be right but for one key (`RightBut`): with
another value for it, or with none, they could be read.  Then they fail with the fault of this key,
if it has one (`failure?_decode_of_rightBut`), and this fault has the path of the key.

Faults of profiles beside the default one have lost their way, though.  Whatever is wrong with a key
of such a profile, it is reported with the path of the table of all profiles (`Key.reported`), so
nothing tells which key it is, or which profile (`custom_key_unnamed`).

The way there: the fault of settings is that of the depth of searches, or else that of the profiles
(`failure?_decode`); what is wrong with one profile is wrong with all settings
(`failure?_decode_of_profile`); and a profile has the fault of the one field that may be wrong
(`profileFault?_table`).
-/

namespace TestLanes.Settings

open Files (Disk join)

/-! ## 1. Keys

The keys are those of the history and of the profiles, with the structures that they are in.  A leaf
asks for one value.  The others ask for a table or an array; a table may have wrong keys in it,
which are keys themselves, whereas the items of an array have no keys and count as part of its
value.

`fault?` is a function of the key and its value alone, and it gives the path that the key has in the
file.  What is reported for other profiles is this fault without its path (`Fault.atProfiles`).
-/

/-- A key that settings have a meaning for. -/
inductive Key where
  | history
  | searchDepth
  | profiles
  | profile (name : String)
  | field (name : String) (f : Field)
deriving Repr, DecidableEq

namespace Key

/-- The names on the way to a key. -/
def way : Key → List String
  | history => ["history"]
  | searchDepth => ["history", "search-depth"]
  | profiles => ["profile"]
  | profile name => ["profile", name]
  | field name f => ["profile", name, f.name]

/-- The path of a key. -/
def path (key : Key) : String := String.intercalate "." key.way

/-- Whether a key belongs to a profile beside the default one. -/
def isCustom : Key → Bool
  | profile name | field name _ => name ≠ defaultName
  | _ => false

/-- Whether a key asks for one value, and not for a structure of keys. -/
def isLeaf : Key → Bool
  | searchDepth | field _ _ => true
  | _ => false

/-- Whether an array has the number of items that a profile asks for. -/
def fitsLength (name : String) (vs : List Value) : Bool :=
  if name = defaultName then Field.all.length ≤ vs.length else vs.length ≤ Field.all.length

/-- What is wrong with the value of a key: it is not of the type or form that the key asks for.
Where an array stands for a structure, the first item that is wrong counts, and after that the
number of items.  A table is right by itself; the keys in it may be wrong. -/
def fault? (key : Key) (v : Value) : Option Fault :=
  match key, v with
  | searchDepth, v => if v.toNatural?.isSome then none else some ⟨key.path, none⟩
  | field name f, v =>
    if (takingOf name).accepts f v then none else some ⟨key.path, f.detail v⟩
  | _, .table _ => none
  | history, .array (depth :: _) =>
    if depth.toNatural?.isSome then none else some ⟨key.path ++ "[0]", none⟩
  | profile name, .array vs => arrayFault? (takingOf name) (fitsLength name vs) key.path vs
  | _, _ => some ⟨key.path, none⟩

/-- The fault of a key as it is reported. -/
def reported (key : Key) : Fault → Fault := if key.isCustom then Fault.atProfiles else id

variable {key : Key} {v : Value} {fault : Fault}

theorem reported_of_isCustom (h : key.isCustom = true) : key.reported = Fault.atProfiles := if_pos h

theorem reported_of_not_isCustom (h : key.isCustom = false) : key.reported = id :=
  if_neg (ne_true_of_eq_false h)

theorem reported_profile {name : String} (h : name ≠ defaultName) :
    (profile name).reported = Fault.atProfiles := reported_of_isCustom (decide_eq_true h)

theorem reported_field {name : String} {f : Field} (h : name ≠ defaultName) :
    (field name f).reported = Fault.atProfiles := reported_of_isCustom (decide_eq_true h)

/-- **The path of a fault** is that of the key, or that of an item of it. -/
theorem path_of_fault? (h : key.fault? v = some fault) : fault.path = key.path ∨
    key.isLeaf = false ∧
      ∃ vs, ∃ i : Nat, v = .array vs ∧ fault.path = key.path ++ "[" ++ toString i ++ "]" := by
  have hpath : ∀ {path : String} {detail : Option String},
      some (Fault.mk path detail) = some fault → fault.path = path := by
    rintro path detail ⟨⟩
    rfl
  unfold fault? at h
  split at h
  · -- the depth of searches
    split at h
    · cases h
    · exact Or.inl (hpath h)
  · -- a field
    split at h
    · cases h
    · exact Or.inl (hpath h)
  · cases h
  · next depth vs =>
    split at h
    · cases h
    · exact Or.inr ⟨rfl, depth :: vs, 0, rfl, hpath h⟩
  · next name vs =>
    unfold arrayFault? at h
    split at h
    · next f u i _ => exact Or.inr ⟨rfl, vs, i, rfl, hpath h⟩
    · split at h
      · cases h
      · exact Or.inl (hpath h)
  · exact Or.inl (hpath h)

/-- A key has a fault of its own if it asks for one value or does not have a table. -/
theorem isLeaf_or_of_fault? (h : key.fault? v = some fault) :
    key.isLeaf = true ∨ ∀ es, v ≠ .table es := by
  by_contra hnot
  obtain ⟨hleaf, es, rfl⟩ : key.isLeaf ≠ true ∧ ∃ es, v = .table es := by simpa using hnot
  cases key with
  | searchDepth => exact hleaf rfl
  | field name f => exact hleaf rfl
  | _ => cases h

/-- The path of a key of another profile is longer than that of the table of profiles. -/
theorem length_path_of_isCustom (h : key.isCustom = true) :
    "profile".length < key.path.length := by
  cases key with
  | profile name =>
    have hpath : (profile name).path = "profile" ++ "." ++ name := rfl
    rw [hpath, String.length_append, String.length_append]
    have hdot : ".".length = 1 := rfl
    omega
  | field name f =>
    have hpath : (field name f).path = "profile" ++ "." ++ name ++ "." ++ f.name := rfl
    rw [hpath, String.length_append, String.length_append, String.length_append,
      String.length_append]
    have hdot : ".".length = 1 := rfl
    omega
  | _ => cases h

/-- **In another profile** the path of a fault is not that of the table of profiles. -/
theorem path_ne_of_isCustom (hcustom : key.isCustom = true) (h : key.fault? v = some fault) :
    fault.path ≠ "profile" := by
  intro hpath
  have hlength := length_path_of_isCustom hcustom
  rcases path_of_fault? h with heq | ⟨-, vs, i, -, heq⟩
  · rw [← heq, hpath] at hlength
    exact Nat.lt_irrefl _ hlength
  · have hitem := congrArg String.length (hpath.symm.trans heq)
    rw [String.length_append, String.length_append, String.length_append] at hitem
    omega

/-- What is built in has no table for a leaf. -/
theorem at?_builtIn_of_isLeaf (h : key.isLeaf = true) (es : Layer) :
    at? key.way builtIn ≠ some (.table es) := by
  cases key with
  | searchDepth =>
    intro hes
    cases hes
  | field name f =>
    have hbuiltIn : at? (field name f).way builtIn
        = get? (valueAt [(defaultName, .table builtInDefault)] name).entries f.name := rfl
    rw [hbuiltIn, valueAt, get?_cons]
    intro hes
    split at hes
    · rw [Option.getD_some, Value.entries] at hes
      cases f <;> cases hes
    · cases hes
  | _ => cases h

end Key

/-! ## 2. Settings as a whole

Decoding is a sequence of readings, and only its fault is looked at here.  The first fault counts,
so that of a sequence is an alternative of the faults of its parts (`failure?_bind`).  The order is
that of the decoding: the depth of searches, the default profile, and the other profiles as they
come in the table.
-/

/-- The depth of searches that settings give. -/
def depthOf (l : Layer) : Except Fault Nat :=
  match topField l "history" with
  | some p => decodeDepth p
  | none => .ok History.defaultDepth

/-- What is wrong with a profile. -/
def profileFault? (name : String) (v : Value) : Option Fault :=
  if name = defaultName then failure? (decodeBase ⟨"profile." ++ defaultName, v⟩)
  else (failure? (decodeCustom ⟨name, v⟩)).map Fault.atProfiles

/-- What is wrong with the profiles beside the default one: the first fault of them. -/
def customsFault? (es : Layer) : Option Fault :=
  (es.filter fun e => e.1 ≠ defaultName).findSome? fun e => profileFault? e.1 e.2

/-- What is wrong with the profiles of settings: the fault of the default profile, or else of the
others. -/
def profilesFault? : Option Value → Option Fault
  | some (.table es) =>
    match get? es defaultName with
    | some v => (profileFault? defaultName v).or (customsFault? es)
    | none => some ⟨"profile", none⟩
  | _ => some ⟨"profile", none⟩

variable {l m m' es es' : Layer} {name : String} {v w : Value}

theorem failure?_decodeCustoms (es : Layer) : failure? (decodeCustoms es) = customsFault? es := by
  have hfault : ∀ e ∈ es.filter fun e => e.1 ≠ defaultName, profileFault? e.1 e.2
      = (failure? (decodeCustom ⟨e.1, e.2⟩)).map Fault.atProfiles := by
    intro e he
    have hname : e.1 ≠ defaultName := of_decide_eq_true (List.mem_filter.mp he).2
    rw [profileFault?, if_neg hname]
  rw [decodeCustoms, customsFault?, failure?_mapM, ← List.head?_filterMap, ← List.head?_filterMap]
  refine congrArg List.head? (List.filterMap_congr fun e he => ?_)
  rw [hfault e he]
  dsimp only
  cases decodeCustom ⟨e.1, e.2⟩ <;> rfl

/-- **What is wrong with settings** is the depth of searches, or else the profiles. -/
theorem failure?_decode (l : Layer) :
    failure? (decode l) = (failure? (depthOf l)).or (profilesFault? (get? l "profile")) := by
  unfold decode depthOf
  extract_lets profiles
  have hprofiles : ∀ depth, failure? (profiles depth) = profilesFault? (get? l "profile") := by
    intro depth
    simp only [profiles, topField]
    cases get? l "profile" with
    | none => rfl
    | some v =>
      cases v with
      | table es =>
        rw [profilesFault?, Option.map_some]
        dsimp only
        cases get? es defaultName with
        | none => rfl
        | some v =>
          dsimp only
          rw [profileFault?, if_pos rfl]
          refine failure?_bind fun base => ?_
          rw [← failure?_decodeCustoms]
          exact failure?_bind_ok fun customs => (⟨depth, base, customs⟩ : Profiles)
      | _ => rfl
  cases topField l "history" with
  | none => exact hprofiles _
  | some p => exact failure?_bind hprofiles

theorem depthOf_eq (h : get? m "history" = get? m' "history") : depthOf m = depthOf m' := by
  rw [depthOf, topField, h, ← topField, ← depthOf]

/-! ## 3. One profile

Settings that can be read have no fault in any profile.  If others differ from them within one
profile, then all other profiles and the depth of searches are the same, and there is no fault but
that of the profile itself.  Keys of the table of profiles are distinct, so there is only one value
to look at.

Within the profile the argument is the same with fields for profiles: the values of all other fields
are accepted, so the first wrong value is that of the key in question.  Whether a value that is
accepted makes the profile readable is known from what profiles accept; no field is missing that was
there before.
-/

/-- Keys that are distinct have one value. -/
theorem eq_of_mem_of_get? (hes : Layer.Distinct es) (hv : get? es name = some v)
    {e : String × Value} (he : e ∈ es) (hname : e.1 = name) : e.2 = v := by
  obtain ⟨hkeys, -⟩ := hes
  exact congrArg Prod.snd (List.inj_on_of_nodup_map hkeys he (mem_of_get? hv) hname)

/-- What is found by all that finds something is found first. -/
theorem findSome?_eq_of_unique {α β : Type} {f : α → Option β} {a : α} {as : List α} (ha : a ∈ as)
    (h : ∀ b ∈ as, f b = none ∨ f b = f a) : as.findSome? f = f a := by
  cases hfound : as.findSome? f with
  | none => exact (List.findSome?_eq_none_iff.mp hfound a ha).symm
  | some x =>
    obtain ⟨b, hb, hx⟩ := List.exists_of_findSome?_eq_some hfound
    rcases h b hb with hnone | hsame
    · rw [hx] at hnone
      cases hnone
    · rw [← hx, hsame]

section OneProfile

variable (hread : failure? (decode m') = none)
include hread

/-- Settings that can be read have profiles, and none has a fault. -/
theorem exists_profiles_of_read : failure? (depthOf m') = none ∧
    ∃ es v, get? m' "profile" = some (.table es) ∧ get? es defaultName = some v ∧
      profileFault? defaultName v = none ∧ customsFault? es = none := by
  rw [failure?_decode, Option.or_eq_none_iff] at hread
  obtain ⟨hdepth, hprofiles⟩ := hread
  refine ⟨hdepth, ?_⟩
  unfold profilesFault? at hprofiles
  split at hprofiles
  · next es hes =>
    split at hprofiles
    · next v hv =>
      obtain ⟨hdefault, hcustoms⟩ := Option.or_eq_none_iff.mp hprofiles
      exact ⟨es, v, hes, hv, hdefault, hcustoms⟩
    · cases hprofiles
  · cases hprofiles

theorem profileFault?_of_read (hes : get? m' "profile" = some (.table es))
    (hw : get? es name = some w) : profileFault? name w = none := by
  obtain ⟨-, es', v, hes', hv, hdefault, hcustoms⟩ := exists_profiles_of_read hread
  obtain rfl := Value.table.inj (Option.some.inj (hes.symm.trans hes'))
  by_cases hname : name = defaultName
  · subst hname
    rw [Option.some.inj (hw.symm.trans hv), hdefault]
  · exact List.findSome?_eq_none_iff.mp hcustoms _
      (List.mem_filter.mpr ⟨mem_of_get? hw, decide_eq_true hname⟩)

/-- **Settings that differ in one profile** from settings that can be read have its fault, or can be
read. -/
theorem failure?_decode_of_profile {rest : List String} (hm : m.Distinct)
    (hsame : Layer.without ("profile" :: name :: rest) m
      = Layer.without ("profile" :: name :: rest) m')
    (hes : get? m "profile" = some (.table es)) (hw : get? es name = some w) :
    failure? (decode m) = profileFault? name w := by
  obtain ⟨hdepth, es', v, hes', hv, hdefault, hcustoms⟩ := exists_profiles_of_read hread
  obtain ⟨es'', hes'', hbelow⟩ := exists_table_of_without_eq hsame hes
  obtain rfl := Value.table.inj (Option.some.inj (hes'.symm.trans hes''))
  rw [failure?_decode, depthOf_eq (get?_eq_of_without_eq hsame (by decide)), hdepth,
    Option.none_or, hes, profilesFault?]
  have hothers : ∀ e ∈ es, e.1 ≠ defaultName → e.1 ≠ name → profileFault? e.1 e.2 = none := by
    intro e he hcustom hname
    exact List.findSome?_eq_none_iff.mp hcustoms e
      (List.mem_filter.mpr ⟨mem_of_without_eq hbelow he hname, decide_eq_true hcustom⟩)
  by_cases hname : name = defaultName
  · subst hname
    have hnone : customsFault? es = none := by
      refine List.findSome?_eq_none_iff.mpr fun e he => ?_
      obtain ⟨he, hcustom⟩ := List.mem_filter.mp he
      have hcustom : e.1 ≠ defaultName := of_decide_eq_true hcustom
      exact hothers e he hcustom hcustom
    rw [hw, hnone]
    exact Option.or_none
  · rw [get?_eq_of_without_eq hbelow (Ne.symm hname), hv]
    dsimp only
    rw [hdefault, Option.none_or]
    refine findSome?_eq_of_unique (a := (name, w))
      (List.mem_filter.mpr ⟨mem_of_get? hw, decide_eq_true hname⟩) fun e he => ?_
    obtain ⟨he, hcustom⟩ := List.mem_filter.mp he
    by_cases hkey : e.1 = name
    · right
      rw [hkey, eq_of_mem_of_get? (.of_get? hm hes) hw he hkey]
    · exact Or.inl (hothers e he (of_decide_eq_true hcustom) hkey)

end OneProfile

section OneField

variable {t : Taking} {ws ws' : Layer} {f : Field}

/-- **Tables that differ in one key**: if all values of one are accepted, then all values of the
other are if this one is. -/
theorem accepts_fields_iff (hread : ∀ q ∈ (Value.table ws').fields, t.accepts q.1 q.2 = true)
    (hsame : Layer.without [f.name] ws = Layer.without [f.name] ws') (hws : ws.Distinct)
    (hv : get? ws f.name = some v) :
    (∀ q ∈ (Value.table ws).fields, t.accepts q.1 q.2 = true) ↔ t.accepts f v = true := by
  constructor
  · intro hall
    exact hall (f, v) (mem_fields_table.mpr ⟨_, mem_of_get? hv, rfl, rfl⟩)
  · rintro haccepts ⟨g, u⟩ hq
    obtain ⟨e, he, hname, hvalue⟩ := mem_fields_table.mp hq
    by_cases hkey : e.1 = f.name
    · have hvalue : u = v := hvalue.trans (eq_of_mem_of_get? hws hv he hkey)
      rw [Field.eq_of_name_eq (hname.trans hkey), hvalue, haccepts]
    · exact hread _ (mem_fields_table.mpr ⟨e, mem_of_without_eq hsame he hkey, hname, hvalue⟩)

theorem decodeFields_eq_error_of_field
    (hread : ∀ q ∈ (Value.table ws').fields, t.accepts q.1 q.2 = true)
    (hsame : Layer.without [f.name] ws = Layer.without [f.name] ws') (hws : ws.Distinct)
    (hv : get? ws f.name = some v) (hwrong : ¬ t.accepts f v = true) (path : String) :
    decodeFields t ⟨path, .table ws⟩ = .error ⟨path ++ "." ++ f.name, f.detail v⟩ := by
  refine decodeFields_table_eq_error (fun e he hkey g hg => ?_)
    (fun e he => eq_of_mem_of_get? hws hv he) hv (by simpa using hwrong)
  exact hread (g, e.2) (mem_fields_table.mpr ⟨e, mem_of_without_eq hsame he hkey, hg, rfl⟩)

/-- All fields but one are the same. -/
theorem mem_map_fields_of_without_eq
    (hsame : Layer.without [f.name] ws = Layer.without [f.name] ws')
    (hv : get? ws f.name = some v) {g : Field} (hg : g ∈ (Value.table ws').fields.map (·.1)) :
    g ∈ (Value.table ws).fields.map (·.1) := by
  by_cases hgf : g = f
  · subst hgf
    exact List.mem_map.mpr ⟨(g, v), mem_fields_table.mpr ⟨_, mem_of_get? hv, rfl, rfl⟩, rfl⟩
  · obtain ⟨q, hq, rfl⟩ := List.mem_map.mp hg
    obtain ⟨e, he, hname, hvalue⟩ := mem_fields_table.mp hq
    have hkey : e.1 ≠ f.name := fun hkey => hgf (Field.eq_of_name_eq (hname.trans hkey))
    exact List.mem_map.mpr
      ⟨q, mem_fields_table.mpr ⟨e, mem_of_without_eq hsame.symm he hkey, hname, hvalue⟩, rfl⟩

/-- **The fault of a profile** that is right but for one field is that of the field. -/
theorem profileFault?_table (hread : profileFault? name (.table ws') = none)
    (hsame : Layer.without [f.name] ws = Layer.without [f.name] ws') (hws : ws.Distinct)
    (hv : get? ws f.name = some v) : profileFault? name (.table ws)
      = ((Key.field name f).fault? v).map (Key.field name f).reported := by
  unfold profileFault? at hread ⊢
  rw [Key.fault?, takingOf]
  split at hread
  · next hname =>
    subst hname
    simp only [if_pos]
    obtain ⟨⟨-, hall⟩, hthere⟩ := exists_decodeBase_iff.mp (failure?_eq_none_iff.mp hread)
    split
    · next haccepts =>
      refine failure?_eq_none_iff.mpr (exists_decodeBase_iff.mpr
        ⟨⟨rfl, (accepts_fields_iff hall hsame hws hv).mpr haccepts⟩, fun g hg => ?_⟩)
      exact mem_map_fields_of_without_eq hsame hv (hthere g hg)
    · next hwrong =>
      rw [decodeBase, decodeFields_eq_error_of_field hall hsame hws hv hwrong]
      cases f <;> rfl
  · next hname =>
    have hread := Option.map_eq_none_iff.mp hread
    obtain ⟨⟨-, hall⟩, -⟩ := exists_decodeCustom_iff.mp (failure?_eq_none_iff.mp hread)
    rw [if_neg hname, if_neg hname]
    split
    · next haccepts =>
      refine Option.map_eq_none_iff.mpr (failure?_eq_none_iff.mpr (exists_decodeCustom_iff.mpr ?_))
      exact ⟨⟨rfl, (accepts_fields_iff hall hsame hws hv).mpr haccepts⟩, rfl⟩
    · next hwrong =>
      rw [decodeCustom, decodeFields_eq_error_of_field hall hsame hws hv hwrong,
        Key.reported_field hname]
      rfl

end OneField

theorem map_atProfiles_arrayFault? (t : Taking) (fits : Bool) (path path' : String)
    (vs : List Value) : (arrayFault? t fits path vs).map Fault.atProfiles
      = (arrayFault? t fits path' vs).map Fault.atProfiles := by
  rw [arrayFault?, arrayFault?]
  split
  · rfl
  · split <;> rfl

/-- **The fault of a profile** that is no table is that of its value. -/
theorem profileFault?_of_ne_table (hv : ∀ es, v ≠ .table es) :
    profileFault? name v = ((Key.profile name).fault? v).map (Key.profile name).reported := by
  rw [profileFault?]
  split
  · next hname =>
    subst hname
    cases v with
    | table es => exact absurd rfl (hv es)
    | array vs =>
      rw [failure?_decodeBase_array, Key.reported_of_not_isCustom rfl, Option.map_id]
      rfl
    | _ => rfl
  · next hname =>
    rw [Key.reported_profile hname]
    cases v with
    | table es => exact absurd rfl (hv es)
    | array vs =>
      rw [failure?_decodeCustom_array, Key.fault?, takingOf, if_neg hname, Key.fitsLength,
        if_neg hname]
      exact map_atProfiles_arrayFault? ..
    | _ => rfl

/-! ## 4. The history

The history has one field.  Its value is found behind keys without a meaning, which are passed over.
-/

/-- The depth of a table is read from its key. -/
theorem decodeDepth_table {path : String} (hv : get? es "search-depth" = some v) :
    decodeDepth ⟨path, .table es⟩
      = Place.read ⟨path ++ "." ++ "search-depth", v⟩ Value.toNatural? := by
  have hfields : ∃ rest, (Place.mk path (.table es)).fields [()] (fun _ => "search-depth")
      = .ok (((), ⟨path ++ "." ++ "search-depth", v⟩) :: rest) := by
    induction es with
    | nil => cases hv
    | cons e es ih =>
      obtain ⟨k, w⟩ := e
      rw [get?_cons] at hv
      by_cases hk : k = "search-depth"
      · subst hk
        rw [if_pos rfl] at hv
        obtain rfl := Option.some.inj hv
        exact ⟨_, rfl⟩
      · rw [if_neg hk] at hv
        obtain ⟨rest, hrest⟩ := ih hv
        refine ⟨rest, hrest ▸ ?_⟩
        have hskip : [()].find? (fun _ => "search-depth" = k) = none := by
          simpa using Ne.symm hk
        rw [Place.fields, Place.fields]
        dsimp only
        rw [List.filterMap_cons_none (by rw [hskip]; rfl)]
  obtain ⟨rest, hfields⟩ := hfields
  rw [decodeDepth, hfields]
  rfl

/-- A number is read if it is one. -/
theorem failure?_read_toNatural? (p : Place) : failure? (p.read Value.toNatural?)
    = if p.value.toNatural?.isSome then none else some ⟨p.path, none⟩ := by
  rw [Place.read]
  cases p.value.toNatural? <;> rfl

/-- **The fault of a history** that is no table is that of its value. -/
theorem failure?_decodeDepth_of_ne_table (hv : ∀ es, v ≠ .table es) :
    failure? (decodeDepth ⟨"history", v⟩) = Key.history.fault? v := by
  cases v with
  | table es => exact absurd rfl (hv es)
  | array vs =>
    cases vs with
    | nil => rfl
    | cons depth vs => exact failure?_read_toNatural? ⟨"history[0]", depth⟩
  | _ => rfl

/-! ## 5. One key

The settings that could be read stand in `RightBut` as a witness, and they may have any value for
the key.  The proof is by the key: for one on the way to a profile or a field, the table that it is
in is followed down in both settings, as far as they are the same.
-/

/-- Settings can be read with another value for the key, or with none. -/
def RightBut (key : Key) (m : Layer) : Prop :=
  ∃ m', Layer.without key.way m = Layer.without key.way m' ∧ ∃ s, decode m' = .ok s

/-- **Settings that are right but for one key** have the fault of this key, if it has one. -/
theorem failure?_decode_of_rightBut (hm : m.Distinct) {key : Key} (h : RightBut key m)
    (hv : at? key.way m = some v) (hkind : key.isLeaf = true ∨ ∀ es, v ≠ .table es) :
    failure? (decode m) = (key.fault? v).map key.reported := by
  obtain ⟨m', hsame, hread⟩ := h
  have hread : failure? (decode m') = none := failure?_eq_none_iff.mpr hread
  obtain ⟨hdepth, hprofiles⟩ := Option.or_eq_none_iff.mp ((failure?_decode m').symm.trans hread)
  have hhistory : get? m "profile" = get? m' "profile" →
      failure? (decode m) = failure? (depthOf m) := by
    intro hprofile
    rw [failure?_decode, hprofile, hprofiles, Option.or_none]
  cases key with
  | history =>
    have hv : get? m "history" = some v := hv
    rw [hhistory (get?_eq_of_without_eq hsame (by decide)), depthOf, topField, hv,
      Key.reported_of_not_isCustom rfl, Option.map_id]
    exact failure?_decodeDepth_of_ne_table (hkind.resolve_left Bool.false_ne_true)
  | searchDepth =>
    obtain ⟨hs, hes, hv⟩ := exists_table_of_get?_entries hv
    rw [hhistory (get?_eq_of_without_eq hsame (by decide)), depthOf, topField, hes,
      Key.reported_of_not_isCustom rfl, Option.map_id]
    dsimp only [Option.map_some]
    rw [decodeDepth_table hv]
    exact failure?_read_toNatural? ⟨"history.search-depth", v⟩
  | profiles =>
    have hno := hkind.resolve_left Bool.false_ne_true
    have hv : get? m "profile" = some v := hv
    rw [failure?_decode, depthOf_eq (get?_eq_of_without_eq hsame (by decide)), hdepth,
      Option.none_or, hv]
    cases v with
    | table es => exact absurd rfl (hno es)
    | _ => rfl
  | profile name =>
    obtain ⟨es, hes, hw⟩ := exists_table_of_get?_entries hv
    rw [← profileFault?_of_ne_table (hkind.resolve_left Bool.false_ne_true)]
    exact failure?_decode_of_profile hread hm hsame hes hw
  | field name f =>
    have hv : get? (valueAt (valueAt m "profile").entries name).entries f.name = some v := hv
    obtain ⟨ws, hw, hv⟩ := exists_table_of_get?_entries hv
    obtain ⟨es, hes, hw⟩ := exists_table_of_get?_entries hw
    obtain ⟨es', hes', hprofiles⟩ := exists_table_of_without_eq hsame hes
    obtain ⟨ws', hw', hfields⟩ := exists_table_of_without_eq hprofiles hw
    rw [← profileFault?_table (profileFault?_of_read hread hes' hw') hfields
      (.of_get? (.of_get? hm hes) hw) hv]
    exact failure?_decode_of_profile hread hm hsame hes hw

/-! ## 6. Settings that are loaded

What is right but for one key is the file over what is built in, and the value that has the fault is
the file's own.  It is also the value over what is built in: either it is no table, or the key is a
leaf and nothing built in has a table there.

That a file is right but for one key is established by computing, with the key left out
(`hasOnlyFault`), as the two runs below do.  In the first one the wrong key is in the default
profile, and it is named; in the second one it is in another profile, and it is not.
-/

/-- Settings are right but for one key if those of a file that differs only in this key can be
read. -/
theorem rightBut_of_without_eq {key : Key} (hl : Layer.Plain l) (hl' : Layer.Plain l')
    (h : Layer.without key.way l = Layer.without key.way l')
    (hread : ∃ s, decode (l'.merge builtIn) = .ok s) : RightBut key (l.merge builtIn) :=
  ⟨l'.merge builtIn, merge_without_eq hl hl' h builtIn, hread⟩

/-- Whether a layer has the fault in the key, and none without the key. -/
def hasOnlyFault (key : Key) (fault : Fault) (l : Layer) : Bool :=
  decide (Layer.Plain l) && decide (Layer.Plain (Layer.without key.way l)) &&
    failure? (decode ((Layer.without key.way l).merge builtIn)) = none &&
    (at? key.way (l.merge [])).bind key.fault? = some fault

theorem of_hasOnlyFault {key : Key} {fault : Fault} (h : hasOnlyFault key fault l = true) :
    RightBut key (l.merge builtIn) ∧
      ∃ v, at? key.way (l.merge []) = some v ∧ key.fault? v = some fault := by
  simp only [hasOnlyFault, Bool.and_eq_true, decide_eq_true_eq] at h
  obtain ⟨⟨⟨hl, hl'⟩, hread⟩, hfault⟩ := h
  exact ⟨rightBut_of_without_eq hl hl' (without_without key.way l).symm
    (failure?_eq_none_iff.mp hread), Option.bind_eq_some_iff.mp hfault⟩

def noLanes (name : String) : String := "[profile." ++ name ++ "]\nparallelism = \"count:0\"\n"

def noLanesFault (path : String) : Fault :=
  ⟨path, some "parallelism must be in the format \"count:N\":\nlane count must be at least 1"⟩

/-- **Which key is reported as failing.**  Let a settings file be such that its settings are right
but for one key that it gives.  If the value of this key has a fault, then loading fails.  The fault
is reported with the path of the key, or of the item of an array that is wrong; but for keys of
profiles beside the default one, it is reported with the path of the table of profiles.  If the
value has no fault, and is no table of keys that may be wrong in turn, then the file can be
loaded. -/
theorem failing_key {d : Disk} {root : String} {file : Option String} {key : Key}
    (hlayer : loadLayer d (file.getD (join root usualPath)) file.isSome = .ok l)
    (hvalue : at? key.way (l.merge []) = some v) (h : RightBut key (l.merge builtIn)) :
    (∀ fault, key.fault? v = some fault →
      load d root file
        = .error ⟨file.getD (join root usualPath), .wrongValue (key.reported fault)⟩ ∧
      (fault.path = key.path ∨ key.isLeaf = false ∧
        ∃ vs, ∃ i : Nat, v = .array vs ∧ fault.path = key.path ++ "[" ++ toString i ++ "]") ∧
      (key.isCustom = false → key.reported fault = fault) ∧
      (key.isCustom = true → (key.reported fault).path = "profile" ∧ fault.path ≠ "profile")) ∧
    (key.isLeaf = true ∨ (∀ es, v ≠ .table es) → key.fault? v = none →
      ∃ loaded, load d root file = .ok loaded) := by
  have hdecode : key.isLeaf = true ∨ (∀ es, v ≠ .table es) →
      failure? (decode (l.merge builtIn)) = (key.fault? v).map key.reported := by
    intro hkind
    refine failure?_decode_of_rightBut (distinct_merge l distinct_builtIn) h ?_ hkind
    exact at?_merge_of_at?_merge_nil hvalue (hkind.symm.imp_right Key.at?_builtIn_of_isLeaf)
  refine ⟨fun fault hfault => ⟨?_, Key.path_of_fault? hfault, ?_, ?_⟩, fun hkind hnone => ?_⟩
  · have hfails := hdecode (Key.isLeaf_or_of_fault? hfault)
    rw [hfault, Option.map_some, failure?_eq_some_iff] at hfails
    unfold load
    simp only [hlayer, hfails]
  · intro hcustom
    rw [Key.reported_of_not_isCustom hcustom, id]
  · intro hcustom
    rw [Key.reported_of_isCustom hcustom]
    exact ⟨rfl, Key.path_ne_of_isCustom hcustom hfault⟩
  · have hreads := hdecode hkind
    rw [hnone, Option.map_none, failure?_eq_none_iff] at hreads
    obtain ⟨s, hs⟩ := hreads
    unfold load
    simp only [hlayer, hs]
    exact ⟨_, rfl⟩

theorem failing_key_noLanes : ∃ l,
    loadLayer (workspaceDisk (noLanes "default")) "ws/.config/lanesplit.toml" false = .ok l ∧
      RightBut (.field "default" .parallelism) (l.merge builtIn) ∧
      load (workspaceDisk (noLanes "default")) "ws" none = .error ⟨"ws/.config/lanesplit.toml",
        .wrongValue (noLanesFault "profile.default.parallelism")⟩ := by
  have hlayer : (loadLayer (workspaceDisk (noLanes "default")) "ws/.config/lanesplit.toml"
      false).toOption.map (hasOnlyFault (.field "default" .parallelism)
        (noLanesFault "profile.default.parallelism")) = some true := by decide +kernel
  obtain ⟨l, hlayer, honly⟩ := Option.map_eq_some_iff.mp hlayer
  rw [toOption_eq_some_iff] at hlayer
  obtain ⟨hright, v, hvalue, hfault⟩ := of_hasOnlyFault honly
  obtain ⟨hfails, -⟩ :=
    @failing_key l v (workspaceDisk (noLanes "default")) "ws" none _ hlayer hvalue hright
  exact ⟨l, hlayer, hright, (hfails _ hfault).1⟩

/-- **A wrong key that is not named.**  A file with a wrong key in a profile of its own can be read
without this key; with it, the fault has the path of the table of profiles, not that of the key. -/
theorem custom_key_unnamed : ∃ l v fault,
    loadLayer (workspaceDisk (noLanes "ci")) "ws/.config/lanesplit.toml" false = .ok l ∧
      at? (Key.field "ci" .parallelism).way (l.merge []) = some v ∧
      RightBut (.field "ci" .parallelism) (l.merge builtIn) ∧
      (Key.field "ci" .parallelism).fault? v = some fault ∧
      (Key.field "ci" .parallelism).path = "profile.ci.parallelism" ∧
      load (workspaceDisk (noLanes "ci")) "ws" none
        = .error ⟨"ws/.config/lanesplit.toml", .wrongValue (noLanesFault "profile")⟩ ∧
      ∀ detail, load (workspaceDisk (noLanes "ci")) "ws" none
        ≠ .error ⟨"ws/.config/lanesplit.toml", .wrongValue ⟨"profile.ci.parallelism", detail⟩⟩ := by
  have hlayer : (loadLayer (workspaceDisk (noLanes "ci")) "ws/.config/lanesplit.toml"
      false).toOption.map (hasOnlyFault (.field "ci" .parallelism)
        (noLanesFault "profile.ci.parallelism")) = some true := by decide +kernel
  have hload : load (workspaceDisk (noLanes "ci")) "ws" none
      = .error ⟨"ws/.config/lanesplit.toml", .wrongValue (noLanesFault "profile")⟩ := by
    decide +kernel
  obtain ⟨l, hlayer, honly⟩ := Option.map_eq_some_iff.mp hlayer
  rw [toOption_eq_some_iff] at hlayer
  obtain ⟨hright, v, hvalue, hfault⟩ := of_hasOnlyFault honly
  refine ⟨l, v, _, hlayer, hvalue, hright, hfault, rfl, hload, fun detail hnamed => ?_⟩
  rw [hload] at hnamed
  simp [noLanesFault] at hnamed

end TestLanes.Settings
