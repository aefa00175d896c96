import TestLanes.Proofs.Buckets
import TestLanes.Proofs.Settings.Resolve

/-!
# Keys that no setting has

Settings have sections: the top level, the history, and one for each profile.  Each has keys of its
own; a key of a section that is not one of them is `Unread`.  It deserves the name: what settings
are read as does not change when all unread keys are left out, in whatever section
(`decode_onlyKnown`).

The warning of loaded settings lists the unread keys of the top level, of the history and of the
default profile (`mem_unknownKeys`).  They are looked for in the file over what is built in, and are
those of the file itself, because what is built in has known keys only (`unread_merge`).  Unread
keys of other profiles are not listed, so a key that is spelled wrong there is passed over in
silence (`unread_key_unreported`).
-/

namespace TestLanes.Settings

open Files (Disk join)

/-! ## 1. Sections

A section is reached from the top by names, and what stands there need not be a table; if it is
none, the section has no keys.  Profiles have keys of their own each, but the same ones have a
meaning.
-/

/-- The keys of the fields of a profile. -/
def Field.names : List String := all.map name

/-- A part of settings with keys of its own. -/
inductive Section where
  | top
  | history
  | profile (name : String)
deriving Repr, DecidableEq

namespace Section

/-- The names on the way to a section. -/
def way : Section → List String
  | top => []
  | history => ["history"]
  | profile name => ["profile", name]

/-- The keys that have a meaning in a section. -/
def known : Section → List String
  | top => ["history", "profile"]
  | history => ["search-depth"]
  | profile _ => Field.names

/-- The path of a key. -/
def path (s : Section) (key : String) : String := String.intercalate "." (s.way ++ [key])

/-- What settings have in a section. -/
def get (l : Layer) : Section → Value
  | top => .table l
  | history => valueAt l "history"
  | profile name => valueAt (valueAt l "profile").entries name

/-- A section has a key. -/
def Has (l : Layer) (s : Section) (key : String) : Prop :=
  (get? (s.get l).entries key).isSome = true

/-- A section has a key that has no meaning there. -/
def Unread (l : Layer) (s : Section) (key : String) : Prop := s.Has l key ∧ key ∉ s.known

instance (l : Layer) (s : Section) (key : String) : Decidable (s.Has l key) :=
  inferInstanceAs (Decidable (_ = true))

instance (l : Layer) (s : Section) (key : String) : Decidable (s.Unread l key) :=
  inferInstanceAs (Decidable (_ ∧ _))

end Section

/-- The sections in which unread keys are reported. -/
def reportedSections : List Section := [.top, .history, .profile defaultName]

/-! ## 2. Settings without unread keys

Unread keys are left out by section: on the top level, in the history, and in every profile.  For
each reader of the settings one lemma says that it gives the same for what is left, from the fields
of a place up to the settings as a whole; only the lookup of fields has something to show.

In the other direction, what is left of a section is told by its keys.  So the definition of an
unread key and the reading of settings agree about which keys have a meaning.
-/

/-- A table without the keys that are not among those known. -/
def Value.only (known : List String) : Value → Value
  | .table es => .table (es.filter fun e => known.contains e.1)
  | v => v

/-- A table of profiles without their unread keys. -/
def Value.onlyFields : Value → Value
  | .table es => .table (es.map fun e => (e.1, e.2.only Field.names))
  | v => v

/-- The value of a key on the top level without the unread keys in it. -/
def onlyKnownAt (key : String) (v : Value) : Value :=
  if key = "history" then v.only Section.history.known else v.onlyFields

/-- Settings without their unread keys. -/
def Layer.onlyKnown (l : Layer) : Layer :=
  (l.filter fun e => Section.top.known.contains e.1).map fun e => (e.1, onlyKnownAt e.1 e.2)

theorem get?_onlyKnown (l : Layer) (k : String) : get? l.onlyKnown k
    = if k ∈ Section.top.known then (get? l k).map (onlyKnownAt k) else none := by
  rw [Layer.onlyKnown, get?_map, get?_filter]
  split <;> rfl

theorem get?_history_onlyKnown (l : Layer) : get? l.onlyKnown "history"
    = (get? l "history").map (·.only Section.history.known) := get?_onlyKnown l "history"

theorem get?_profile_onlyKnown (l : Layer) : get? l.onlyKnown "profile"
    = (get? l "profile").map (·.onlyFields) := get?_onlyKnown l "profile"

/-- The fields that are there are among the keys that are known. -/
theorem fields_only {F : Type} {all : List F} {name : F → String} {known : List String}
    (h : ∀ f ∈ all, name f ∈ known) (path : String) (v : Value) :
    (Place.mk path (v.only known)).fields all name = (Place.mk path v).fields all name := by
  cases v with
  | table es =>
    simp only [Place.fields, Value.only, List.filterMap_filter]
    refine congrArg _ (List.filterMap_congr fun e _ => ?_)
    split
    · rfl
    · next hunknown =>
      have hnone : all.find? (name · = e.1) = none := by
        refine List.find?_eq_none.mpr fun f hf heq => hunknown ?_
        rw [← of_decide_eq_true heq]
        simpa using h f hf
      rw [hnone]
      rfl
  | _ => rfl

theorem decodeDepth_only (path : String) (v : Value) :
    decodeDepth ⟨path, v.only Section.history.known⟩ = decodeDepth ⟨path, v⟩ := by
  unfold decodeDepth
  rw [fields_only (by simp [Section.known])]
  rfl

theorem decodeFields_only (t : Taking) (path : String) (v : Value) :
    decodeFields t ⟨path, v.only Field.names⟩ = decodeFields t ⟨path, v⟩ := by
  have hnames : ∀ f ∈ Field.all, f.name ∈ Field.names := fun f hf => List.mem_map_of_mem hf
  unfold decodeFields
  rw [fields_only hnames]

theorem decodeBase_only (path : String) (v : Value) :
    decodeBase ⟨path, v.only Field.names⟩ = decodeBase ⟨path, v⟩ := by
  unfold decodeBase
  rw [decodeFields_only]
  rfl

theorem decodeCustom_only (path : String) (v : Value) :
    decodeCustom ⟨path, v.only Field.names⟩ = decodeCustom ⟨path, v⟩ := by
  unfold decodeCustom
  rw [decodeFields_only]
  cases v <;> rfl

theorem decodeCustoms_map_only (es : Layer) :
    decodeCustoms (es.map fun e => (e.1, e.2.only Field.names)) = decodeCustoms es := by
  unfold decodeCustoms
  rw [List.filter_map, List.mapM_map]
  refine congrArg (fun f => List.mapM f _) (funext fun e => ?_)
  dsimp only [Function.comp]
  rw [decodeCustom_only]

/-- **Unread keys are not read.**  Settings are read as they are without them. -/
theorem decode_onlyKnown (l : Layer) : decode l.onlyKnown = decode l := by
  unfold decode
  extract_lets profiles profiles'
  have hprofiles : profiles = profiles' := by
    funext depth
    simp only [profiles, profiles', topField, get?_profile_onlyKnown]
    cases get? l "profile" with
    | none => rfl
    | some v =>
      cases v with
      | table es =>
        dsimp only [Option.map_some, Value.onlyFields]
        rw [decodeCustoms_map_only, get?_map fun _ v => v.only Field.names]
        cases get? es defaultName with
        | none => rfl
        | some v =>
          dsimp only [Option.map_some]
          rw [decodeBase_only]
      | _ => rfl
  rw [hprofiles, topField, topField, get?_history_onlyKnown]
  cases get? l "history" with
  | none => rfl
  | some v =>
    dsimp only [Option.map_some]
    rw [decodeDepth_only]

theorem valueAt_history_onlyKnown (l : Layer) :
    valueAt l.onlyKnown "history" = (valueAt l "history").only Section.history.known := by
  rw [valueAt, get?_history_onlyKnown]
  exact Option.getD_map (·.only Section.history.known) .nothing (get? l "history")

theorem valueAt_profile_onlyKnown (l : Layer) :
    valueAt l.onlyKnown "profile" = (valueAt l "profile").onlyFields := by
  rw [valueAt, get?_profile_onlyKnown]
  exact Option.getD_map Value.onlyFields .nothing (get? l "profile")

theorem valueAt_entries_onlyFields (v : Value) (name : String) :
    valueAt v.onlyFields.entries name = (valueAt v.entries name).only Field.names := by
  cases v with
  | table es =>
    rw [Value.onlyFields, Value.entries, valueAt, get?_map fun _ v => v.only Field.names]
    exact Option.getD_map (·.only Field.names) .nothing (get? es name)
  | _ => rfl

theorem get?_entries_only (known : List String) (v : Value) (k : String) :
    get? (v.only known).entries k = if k ∈ known then get? v.entries k else none := by
  cases v with
  | table es => exact get?_filter known es k
  | _ => exact (ite_self none).symm

/-- **What is left of a section** are its known keys. -/
theorem has_onlyKnown_iff (l : Layer) (s : Section) (key : String) :
    s.Has l.onlyKnown key ↔ s.Has l key ∧ key ∈ s.known := by
  cases s with
  | top =>
    rw [Section.Has, Section.Has, Section.get, Section.get, Value.entries, Value.entries,
      get?_onlyKnown]
    split <;> simp_all
  | history =>
    rw [Section.Has, Section.Has, Section.get, Section.get, valueAt_history_onlyKnown,
      get?_entries_only]
    split <;> simp_all
  | profile name =>
    rw [Section.Has, Section.Has, Section.get, Section.get, valueAt_profile_onlyKnown,
      valueAt_entries_onlyFields, get?_entries_only]
    split <;> simp_all [Section.known]

theorem unread_iff_has (l : Layer) (s : Section) (key : String) :
    s.Unread l key ↔ s.Has l key ∧ ¬ s.Has l.onlyKnown key := by
  rw [has_onlyKnown_iff, Section.Unread]
  tauto

/-! ## 3. The file over what is built in

Each step into a section keeps the relation of a layer, a base and both together, and either the
base has something there or nothing.  As what is built in has no unread key, the base has nothing
under such a key, and the relation leaves no choice.
-/

/-- One step further into what a layer gives over a base. -/
theorem Over.exists_over_get? {b u m : Option Value} (h : Over b u m) (k : String) :
    ∃ b', (b' = none ∨ b' = get? (b.getD .nothing).entries k) ∧
      Over b' (get? (u.getD .nothing).entries k) (get? (m.getD .nothing).entries k) := by
  rcases h.entries_eq_or with hsame | ⟨bs, rfl, hall⟩
  · rw [hsame]
    refine ⟨none, Or.inl rfl, ?_⟩
    cases get? (m.getD .nothing).entries k with
    | none => exact .kept none
    | some v => exact .same none v
  · exact ⟨_, Or.inr rfl, hall k⟩

/-- The same for a section. -/
theorem exists_over_section (l : Layer) (s : Section) (key : String) :
    ∃ b, (b = none ∨ b = get? (s.get builtIn).entries key) ∧
      Over b (get? (s.get (l.merge [])).entries key) (get? (s.get (l.merge builtIn)).entries key) := by
  have htop := overAll_merge l arrayFree_builtIn
  cases s with
  | top => exact ⟨_, Or.inr rfl, htop key⟩
  | history => exact (htop "history").exists_over_get? key
  | profile name =>
    obtain ⟨b, hb, hprofile⟩ := (htop "profile").exists_over_get? name
    obtain ⟨b', hb', hover⟩ := hprofile.exists_over_get? key
    refine ⟨b', ?_, hover⟩
    rcases hb with rfl | rfl
    · rcases hb' with rfl | rfl <;> exact Or.inl rfl
    · exact hb'

/-- What is built in has known keys only. -/
theorem mem_known_of_has_builtIn {s : Section} {key : String} (h : s.Has builtIn key) :
    key ∈ s.known := by
  have hkeys := isSome_get?_iff.mp h
  cases s with
  | top => exact hkeys
  | history => exact hkeys
  | profile name =>
    by_cases hname : defaultName = name
    · subst hname
      have hsubset : ∀ k ∈ builtInDefault.map (·.1), k ∈ Field.names := by decide
      exact hsubset key hkeys
    · have hnone : (Section.profile name).get builtIn = .nothing := by
        rw [Section.get, show (valueAt builtIn "profile").entries
          = [(defaultName, .table builtInDefault)] from rfl, valueAt, get?_cons, if_neg hname]
        rfl
      rw [hnone] at hkeys
      exact absurd hkeys List.not_mem_nil

/-- **The unread keys of a file over what is built in** are those of the file. -/
theorem unread_merge (l : Layer) (s : Section) (key : String) :
    s.Unread (l.merge builtIn) key ↔ s.Unread (l.merge []) key := by
  refine and_congr_left fun hunknown => ?_
  have hbuiltIn : get? (s.get builtIn).entries key = none :=
    Option.not_isSome_iff_eq_none.mp fun h => hunknown (mem_known_of_has_builtIn h)
  obtain ⟨b, hb, hover⟩ := exists_over_section l s key
  obtain rfl : b = none := hb.elim id (·.trans hbuiltIn)
  rw [Section.Has, Section.Has, hover.eq_of_none]

/-! ## 4. The keys that are reported

Paths are collected section by section, sorted, and freed of repetitions.
-/

theorem mem_unknownIn {front key : String} {known : List String} {v : Value} :
    key ∈ unknownIn front known v ↔
      ∃ k, ((get? v.entries k).isSome = true ∧ k ∉ known) ∧ key = front ++ k := by
  simp only [unknownIn, isSome_get?_iff, List.mem_map, List.mem_filter, Bool.not_eq_true',
    List.contains_eq_mem, decide_eq_false_iff_not]
  constructor
  · rintro ⟨e, ⟨he, hunknown⟩, rfl⟩
    exact ⟨e.1, ⟨⟨e, he, rfl⟩, hunknown⟩, rfl⟩
  · rintro ⟨_, ⟨⟨e, he, rfl⟩, hunknown⟩, rfl⟩
    exact ⟨e, ⟨he, hunknown⟩, rfl⟩

/-- **The keys that are listed** are the unread keys of the sections that are looked at. -/
theorem mem_unknownKeys {l : Layer} {key : String} : key ∈ unknownKeys l ↔
    ∃ s ∈ reportedSections, ∃ k, s.Unread l k ∧ key = s.path k := by
  have hsections : ∀ p : Section → Prop, (∃ s ∈ reportedSections, p s) ↔
      p .top ∨ p .history ∨ p (.profile defaultName) := by
    intro p
    simp [reportedSections]
  rw [hsections]
  simp only [unknownKeys, List.mem_mergeSort, List.mem_eraseDups, List.mem_append, mem_unknownIn,
    or_assoc]
  exact Iff.rfl

/-- They are listed in order, each of them once. -/
theorem pairwise_unknownKeys (l : Layer) : (unknownKeys l).Pairwise (· < ·) := by
  have hle : (unknownKeys l).Pairwise fun a b => decide (a ≤ b) = true := by
    refine List.pairwise_mergeSort (fun a b c hab hbc => ?_) (fun a b => ?_) _
    · exact decide_eq_true (String.le_trans (of_decide_eq_true hab) (of_decide_eq_true hbc))
    · rw [Bool.or_eq_true, decide_eq_true_eq, decide_eq_true_eq]
      exact String.le_total a b
  have hne : (unknownKeys l).Nodup := (List.mergeSort_perm _ _).nodup_iff.mpr (nodup_eraseDups _)
  refine (hle.and hne).imp fun ⟨hab, hneq⟩ => ?_
  by_contra hlt
  exact hneq (String.le_antisymm (of_decide_eq_true hab) hlt)

/-- The other sections are those of other profiles. -/
theorem exists_name_of_notMem_reportedSections {s : Section} (h : s ∉ reportedSections) :
    ∃ name, name ≠ defaultName ∧ s = .profile name := by
  cases s with
  | profile name =>
    refine ⟨name, ?_, rfl⟩
    rintro rfl
    exact h (by decide)
  | _ => exact absurd (by decide) h

/-! ## 5. Settings that are loaded

The statement is about a file that is loaded without a fault, as a warning is given only then.  That
unread keys of other profiles are passed over is seen in `retriesText`: a key in the profile `ci`
that has no meaning, and no warning at all.
-/

/-- The keys that a warning has been given for. -/
def Loaded.reported (l : Loaded) : List String := (l.warning.map Warning.keys).getD []

/-- The warning of settings that are loaded. -/
theorem warning_of_load_eq_ok {d : Disk} {root : String} {file : Option String} {layer : Layer}
    {loaded : Loaded}
    (hlayer : loadLayer d (file.getD (join root usualPath)) file.isSome = .ok layer)
    (hload : load d root file = .ok loaded) :
    loaded.reported = unknownKeys (layer.merge builtIn) ∧
      ∀ w, loaded.warning = some w →
        w.file = file.getD (join root usualPath) ∧ w.root = root ∧ w.keys ≠ [] := by
  obtain ⟨-, hdecode⟩ := of_load_eq_ok hlayer hload
  unfold load at hload
  simp only [hlayer, hdecode, Except.ok.injEq] at hload
  rw [Loaded.reported, ← hload]
  dsimp only
  cases unknownKeys (layer.merge builtIn) with
  | nil => exact ⟨rfl, fun w hw => nomatch hw⟩
  | cons key keys =>
    refine ⟨rfl, ?_⟩
    rintro w ⟨⟩
    exact ⟨rfl, rfl, List.cons_ne_nil _ _⟩

/-- **Which unknown keys are reported.**  Let a settings file be loaded.  The keys of the warning,
or none where there is no warning, are the paths of the unread keys that the file, all by itself,
has on the top level, for the history and for the default profile; they are in order, each of them
once.  These are all unread keys if no other profile has any.  The unread keys are those that can be
left out: what is loaded is what the file over the built-in settings is read as without them.  All
that the file says by itself is what it is made of, if the keys on its top level are names. -/
theorem reported_keys {d : Disk} {root : String} {file : Option String} {layer : Layer}
    {loaded : Loaded}
    (hlayer : loadLayer d (file.getD (join root usualPath)) file.isSome = .ok layer)
    (hload : load d root file = .ok loaded) :
    (∀ key, key ∈ loaded.reported ↔
      ∃ s ∈ reportedSections, ∃ k, s.Unread (layer.merge []) k ∧ key = s.path k) ∧
    loaded.reported.Pairwise (· < ·) ∧
    (∀ w, loaded.warning = some w →
      w.file = file.getD (join root usualPath) ∧ w.root = root ∧ w.keys ≠ []) ∧
    ((∀ name, name ≠ defaultName → ∀ k, ¬ (Section.profile name).Unread (layer.merge []) k) →
      ∀ key, key ∈ loaded.reported ↔
        ∃ (s : Section) (k : String), s.Unread (layer.merge []) k ∧ key = s.path k) ∧
    decode (layer.merge builtIn).onlyKnown = .ok loaded.profiles ∧
    (∀ (s : Section) (k : String), s.Unread (layer.merge []) k ↔
      s.Has (layer.merge builtIn) k ∧ ¬ s.Has (layer.merge builtIn).onlyKnown k) ∧
    (layer.Ordinary → ∀ (s : Section) (k : String),
      s.Unread (layer.merge []) k ↔ s.Unread layer k) := by
  obtain ⟨hreported, hwarning⟩ := warning_of_load_eq_ok hlayer hload
  have hkeys : ∀ key, key ∈ loaded.reported ↔
      ∃ s ∈ reportedSections, ∃ k, s.Unread (layer.merge []) k ∧ key = s.path k := by
    intro key
    rw [hreported, mem_unknownKeys]
    simp only [unread_merge]
  refine ⟨hkeys, ?_, hwarning, fun hothers key => ?_, ?_, fun s k => ?_, fun hordinary s k => ?_⟩
  · rw [hreported]
    exact pairwise_unknownKeys _
  · rw [hkeys]
    constructor
    · rintro ⟨s, -, k, hunread, hpath⟩
      exact ⟨s, k, hunread, hpath⟩
    · rintro ⟨s, k, hunread, hpath⟩
      refine ⟨s, ?_, k, hunread, hpath⟩
      by_contra hs
      obtain ⟨name, hname, rfl⟩ := exists_name_of_notMem_reportedSections hs
      exact hothers name hname k hunread
  · rw [decode_onlyKnown]
    exact (of_load_eq_ok hlayer hload).2
  · rw [← unread_merge, unread_iff_has]
  · rw [merge_nil_of_ordinary hordinary]

/-- A workspace with a settings file at the usual place. -/
def workspaceDisk (text : String) : Disk :=
  ⟨.directory [("ws", .directory [(".config", .directory [("lanesplit.toml",
    .file text.toUTF8)])])], []⟩

/-- Keys without a meaning in the default profile and on the top level. -/
def storeText : String := "[profile.default]\nretries = 3\n[store]\ndir = \"x\"\n"

theorem reported_keys_storeText : ∃ layer loaded,
    loadLayer (workspaceDisk storeText) "ws/.config/lanesplit.toml" false = .ok layer ∧
      load (workspaceDisk storeText) "ws" none = .ok loaded ∧
      "profile.default.retries" ∈ loaded.reported ∧ "store" ∈ loaded.reported := by
  have hlayer : (loadLayer (workspaceDisk storeText) "ws/.config/lanesplit.toml" false).toOption.map
      (fun layer => decide ((Section.profile defaultName).Unread (layer.merge []) "retries" ∧
        Section.top.Unread (layer.merge []) "store")) = some true := by decide +kernel
  have hload : (load (workspaceDisk storeText) "ws" none).toOption.isSome = true := by
    decide +kernel
  obtain ⟨layer, hlayer, hunread⟩ := Option.map_eq_some_iff.mp hlayer
  obtain ⟨loaded, hload⟩ := Option.isSome_iff_exists.mp hload
  rw [toOption_eq_some_iff] at hlayer hload
  obtain ⟨hretries, hstore⟩ := of_decide_eq_true hunread
  obtain ⟨hkeys, -⟩ := reported_keys hlayer hload
  exact ⟨layer, loaded, hlayer, hload, (hkeys _).mpr ⟨_, by decide, _, hretries, rfl⟩,
    (hkeys _).mpr ⟨_, by decide, _, hstore, rfl⟩⟩

def retriesText : String := "[profile.ci]\nretries = 3\n"

/-- **An unread key that is not reported.** -/
theorem unread_key_unreported : ∃ layer loaded,
    loadLayer (workspaceDisk retriesText) "ws/.config/lanesplit.toml" false = .ok layer ∧
      load (workspaceDisk retriesText) "ws" none = .ok loaded ∧ loaded.warning = none ∧
      (Section.profile "ci").Unread (layer.merge []) "retries" ∧
      (Section.profile "ci").path "retries" = "profile.ci.retries" ∧
      ¬ ∀ key, key ∈ loaded.reported ↔
        ∃ (s : Section) (k : String), s.Unread (layer.merge []) k ∧ key = s.path k := by
  have hlayer : (loadLayer (workspaceDisk retriesText) "ws/.config/lanesplit.toml" false).toOption.map
      (fun layer => decide ((Section.profile "ci").Unread (layer.merge []) "retries")) = some true := by
    decide +kernel
  have hload : (load (workspaceDisk retriesText) "ws" none).toOption.map Loaded.warning
      = some none := by decide +kernel
  obtain ⟨layer, hlayer, hunread⟩ := Option.map_eq_some_iff.mp hlayer
  obtain ⟨loaded, hload, hwarning⟩ := Option.map_eq_some_iff.mp hload
  rw [toOption_eq_some_iff] at hlayer hload
  have hunread := of_decide_eq_true hunread
  refine ⟨layer, loaded, hlayer, hload, hwarning, hunread, rfl, fun hall => ?_⟩
  have hreported := (hall "profile.ci.retries").mpr ⟨_, _, hunread, rfl⟩
  rw [Loaded.reported, hwarning] at hreported
  exact List.not_mem_nil hreported

end TestLanes.Settings
