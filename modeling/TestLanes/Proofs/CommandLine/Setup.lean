import TestLanes.CommandLine.Run
import TestLanes.Proofs.Settings.Resolve

/-!
# What a run is set up with

The command line goes before the profile, field by field (`get_setupOf`), and a profile has what the
file states for it, what the file states for the default one, or what is built in.

Two sorts of results stand here.  `execute_cases` and `execute_eq_ok` say how the stages of a
command follow one another, without looking into any of them.  `settings_resolve` joins what is
known about layers, profiles and the command line to one statement about each field of the setup
that a run uses.  Profiles are found by name in the merged settings, which is not the same as being
a table in the file: `profile_without_table` has the two cases in which it is not.
-/

namespace TestLanes.CommandLine

open Files (Disk join)
open History (Store StoredBuild)
open Settings (Field Layer Loaded Profile builtInValue defaultName get_of_resolve given
  isOk_resolve_iff load loadLayer merge_nil_of_ordinary of_load_eq_ok profileIn stated takingOf
  usualPath)

/-! ## 1. The command line over a profile

A field of a profile is asked for by name, of the command line, of the profile and of the setup, so
that one lemma covers all fields.  The flags of the command line can only be switched on: they say
nothing where they are off, and then the profile decides.
-/

/-- What the command line has for a field of a profile; a flag can only be switched on. -/
def Invocation.get (i : Invocation) : (f : Field) → Option f.Kind
  | .parallelism => i.parallelism
  | .granularity => i.granularity
  | .inclusions => if i.inclusions then some true else none
  | .estimate => if i.estimate then some true else none
  | .stage => i.stage
  | .splitsDirectory => i.outDirectory

def Setup.get (s : Setup) : (f : Field) → Option f.Kind
  | .parallelism => some s.options.parallelism
  | .granularity => some s.options.granularity
  | .inclusions => some s.options.inclusions
  | .estimate => some s.options.estimate
  | .stage => s.options.stage
  | .splitsDirectory => some s.directory

def Invocation.setupOf (i : Invocation) (p : Profile) : Setup :=
  ⟨i.override p.options, i.outDirectory.getD p.splitsDirectory⟩

/-- **The command line goes before the profile.** -/
theorem get_setupOf (i : Invocation) (p : Profile) (f : Field) :
    (i.setupOf p).get f = (i.get f).or (p.get f) := by
  cases f with
  | parallelism => exact Option.or_some.symm
  | granularity => exact Option.or_some.symm
  | inclusions =>
    simp only [Setup.get, Invocation.get, Profile.get, Invocation.setupOf, Invocation.override]
    cases i.inclusions <;> rfl
  | estimate =>
    simp only [Setup.get, Invocation.get, Profile.get, Invocation.setupOf, Invocation.override]
    cases i.estimate <;> rfl
  | stage => rfl
  | splitsDirectory => exact Option.or_some.symm

/-! ## 2. Stages of a command

Settings, plan and writing follow one another, and the first one that fails ends the command.  The
lemmas give the value of a stage from the values it is made of; the lines that are said on the way
do not matter for them.
-/

theorem value_setup {i : Invocation} {d : Disk} {loaded : Loaded} {p : Profile}
    (hload : load d (i.root d) i.settingsFile = .ok loaded)
    (hp : loaded.profile (i.profile.getD defaultName) = .ok p) :
    (i.setup d).value = .ok (i.setupOf p) := by
  unfold Invocation.setup
  rw [Logged.value_bind, Settings.value_loadLogged, hload]
  dsimp only
  rw [hp]
  rfl

theorem value_plan {i : Invocation} {d : Disk} {o : Options} {store : Store} {current : StoredBuild}
    {plan : Plan} (hstore : Store.ofRoot d i.historyDirectory = .ok store)
    (hcurrent : (store.currentBuild i.branch i.build).value = .ok current)
    (hplan : (o.plan store.archive (current.withTarget i.changeTarget)
      (some (Estimate.diskWorkspace d (i.root d)))).value = .ok plan) :
    (i.plan d o).value = .ok plan := by
  unfold Invocation.plan
  rw [hstore]
  dsimp only
  rw [Logged.value_bind, hcurrent]
  dsimp only
  rw [Logged.value_bind, hplan]
  rfl

/-- **How a run can go**: it is stopped by its settings or while the plan is made, before anything
is written, or the plan is written with a fault or without one. -/
theorem execute_cases {i : Invocation} {d d' : Disk} {r : Except Fault (Plan × String)}
    (h : (i.execute d).value = (r, d')) :
    (∃ f, r = .error f ∧ d' = d ∧ ((i.setup d).value = .error f ∨
      ∃ setup, (i.setup d).value = .ok setup ∧ (i.plan d setup.options).value = .error f)) ∨
      ∃ setup plan, (i.setup d).value = .ok setup ∧ (i.plan d setup.options).value = .ok plan ∧
        ∃ w, (Output.writeSelections d setup.directory plan.selections).value = (w, d') ∧
          ((∃ e, w = .error e ∧ r = .error (.write setup.directory e)) ∨
            w = .ok () ∧ r = .ok (plan, setup.directory)) := by
  unfold Invocation.execute at h
  rw [Logged.value_bind] at h
  cases hsetup : (i.setup d).value with
  | error f =>
    rw [hsetup] at h
    cases h
    exact Or.inl ⟨f, rfl, rfl, Or.inl rfl⟩
  | ok setup =>
    rw [hsetup] at h
    dsimp only at h
    rw [Logged.value_bind] at h
    cases hplan : (i.plan d setup.options).value with
    | error f =>
      rw [hplan] at h
      cases h
      exact Or.inl ⟨f, rfl, rfl, Or.inr ⟨setup, rfl, hplan⟩⟩
    | ok plan =>
      rw [hplan] at h
      dsimp only at h
      rw [Logged.value_bind] at h
      refine Or.inr ⟨setup, plan, rfl, hplan, ?_⟩
      rcases hwritten : (Output.writeSelections d setup.directory plan.selections).value
        with ⟨e | _, written⟩
      · rw [hwritten] at h
        cases h
        exact ⟨_, rfl, Or.inl ⟨e, rfl, rfl⟩⟩
      · rw [hwritten] at h
        cases h
        exact ⟨_, rfl, Or.inr ⟨rfl, rfl⟩⟩

/-- What a run that ends well has made and written. -/
theorem execute_eq_ok {i : Invocation} {d d' : Disk} {plan : Plan} {directory : String}
    (h : (i.execute d).value = (.ok (plan, directory), d')) :
    ∃ setup, (i.setup d).value = .ok setup ∧ (i.plan d setup.options).value = .ok plan ∧
      directory = setup.directory ∧
      (Output.writeSelections d directory plan.selections).value = (.ok (), d') := by
  rcases execute_cases h with ⟨_, hr, -⟩ | ⟨setup, made, hsetup, hplan, w, hwritten, hr⟩
  · cases hr
  · rcases hr with ⟨_, -, hr⟩ | ⟨rfl, hr⟩
    · cases hr
    · cases hr
      exact ⟨setup, hsetup, hplan, rfl, hwritten⟩

/-! ## 3. Fields of the setup

The lookup goes through four places: the command line, the profile in the file, the default profile
in the file, and what is built in.  What a file states is what comes of it when it is merged over
nothing, since a key on its top level may be a way to a value.  If all these keys are names, that is
the file as it is written.
-/

/-- **Settings resolve field by field.**  Let a settings file be loaded.  A profile is there exactly
if it is the default one or the file, all by itself, has a value for it.  In each field it has what
the file states for it, else what the file states for the default profile, else what is built in,
with a directory as seen from the root of the workspace; and what the file gives is always read,
unless it is nothing.  So a field does not change with anything else: if another file gives the same
for this field of the profile and of the default one, the field is the same.  A run is set up with
what the command line has for the field, else with what the profile has; its plan is made and
written with that.  All that the file says by itself is what it is made of, if the keys on its top
level are names. -/
theorem settings_resolve {d : Disk} {root : String} {file : Option String} {layer : Layer}
    {loaded : Loaded}
    (hlayer : loadLayer d (file.getD (join root usualPath)) file.isSome = .ok layer)
    (hload : load d root file = .ok loaded) :
    (∀ name, (loaded.profile name).isOk = true ↔
      name = defaultName ∨ (profileIn (layer.merge []) name).isSome = true) ∧
    (∀ name p, loaded.profile name = .ok p → ∀ f,
      p.get f = ((stated layer name f).or ((stated layer defaultName f).or (builtInValue f))).map
          (f.seenFrom root) ∧
        ∀ v, given layer name f = some v →
          v = .nothing ∨ ((takingOf name).read f v).isSome = true) ∧
    (∀ d' file' layer' loaded',
      loadLayer d' (file'.getD (join root usualPath)) file'.isSome = .ok layer' →
      load d' root file' = .ok loaded' → ∀ name p p',
      loaded.profile name = .ok p → loaded'.profile name = .ok p' → ∀ f,
      given layer name f = given layer' name f →
      given layer defaultName f = given layer' defaultName f → p.get f = p'.get f) ∧
    (∀ i : Invocation, i.root d = root → i.settingsFile = file → ∀ p,
      loaded.profile (i.profile.getD defaultName) = .ok p →
      ∃ setup, (i.setup d).value = .ok setup ∧ (∀ f, setup.get f = (i.get f).or (p.get f)) ∧
        ∀ plan directory d', (i.execute d).value = (.ok (plan, directory), d') →
          (i.plan d setup.options).value = .ok plan ∧ directory = setup.directory) ∧
    (layer.Ordinary → ∀ name, profileIn (layer.merge []) name = profileIn layer name) := by
  obtain ⟨hroot, hdecode⟩ := of_load_eq_ok hlayer hload
  have hget : ∀ name p, loaded.profile name = .ok p → ∀ f,
      p.get f = ((stated layer name f).or ((stated layer defaultName f).or (builtInValue f))).map
          (f.seenFrom root) ∧
        ∀ v, given layer name f = some v →
          v = .nothing ∨ ((takingOf name).read f v).isSome = true := by
    intro name p hp f
    rw [← hroot]
    exact get_of_resolve hdecode hp f
  refine ⟨isOk_resolve_iff hdecode loaded.root, hget, ?_, ?_, ?_⟩
  · intro d' file' layer' loaded' hlayer' hload' name p p' hp hp' f hname hdefault
    obtain ⟨hroot', hdecode'⟩ := of_load_eq_ok hlayer' hload'
    rw [(hget name p hp f).1, (get_of_resolve hdecode' hp' f).1, hroot']
    simp only [stated, hname, hdefault]
  · rintro i rfl rfl p hp
    have hsetup := value_setup hload hp
    refine ⟨i.setupOf p, hsetup, get_setupOf i p, fun plan directory d' hrun => ?_⟩
    obtain ⟨setup, hsetup', hplan, hdirectory, -⟩ := execute_eq_ok hrun
    obtain rfl : i.setupOf p = setup := Except.ok.inj (hsetup.symm.trans hsetup')
    exact ⟨hplan, hdirectory⟩
  · intro hordinary name
    rw [merge_nil_of_ordinary hordinary]

def settingsDisk (text : String) : Disk := ⟨.directory [("f", .file text.toUTF8)], []⟩

def ciText : String := "[profile.ci]\nparallelism = 3\n[profile.default]\nstage = \"unit\"\n"

def ciProfile : Profile :=
  ⟨"ci", { parallelism := .count 3, stage := some "unit" }, "w/target/lanesplit"⟩

theorem settings_resolve_ciText : ∃ layer loaded,
    loadLayer (settingsDisk ciText) "f" true = .ok layer ∧
      load (settingsDisk ciText) "w" (some "f") = .ok loaded ∧
      loaded.profile "ci" = .ok ciProfile ∧
      ∀ f, ciProfile.get f = ((stated layer "ci" f).or
        ((stated layer defaultName f).or (builtInValue f))).map (f.seenFrom "w") := by
  have hlayer : (loadLayer (settingsDisk ciText) "f" true).toOption.isSome = true := by
    decide +kernel
  have hprofile : ((load (settingsDisk ciText) "w" (some "f")).toOption.bind
      fun loaded => (loaded.profile "ci").toOption) = some ciProfile := by decide +kernel
  obtain ⟨layer, hlayer⟩ := Option.isSome_iff_exists.mp hlayer
  obtain ⟨loaded, hload, hp⟩ := Option.bind_eq_some_iff.mp hprofile
  rw [toOption_eq_some_iff] at hlayer hload hp
  obtain ⟨-, hget, -⟩ := settings_resolve hlayer hload
  exact ⟨layer, loaded, hlayer, hload, hp, fun f => (hget "ci" ciProfile hp f).1⟩

/-! ## 4. Profiles that are no tables

A file may give a profile as an array, or by a key that is a way to it.  Both are read as profiles,
and neither document has a table of that name under `profile`.
-/

/-- Whether a document has a table for a profile in its table of profiles. -/
def hasProfileTable (doc : List (String × Toml.Value)) (name : String) : Bool :=
  match Toml.get? doc "profile" with
  | some (.table es) =>
    match Toml.get? es name with
    | some (.table _) => true
    | _ => false
  | _ => false

def isThere (text name : String) : Option Bool :=
  (load (settingsDisk text) "w" (some "f")).toOption.map fun loaded => (loaded.profile name).isOk

def arrayText : String := "[profile]\nci = []\n"

def quotedText : String := "\"profile.ci\" = \x7b parallelism = 6 \x7d\n"

/-- **A profile without a table.**  It is there if its key has an array, which may be empty, and
also if a key in quotes on the top level spells the way to it. -/
theorem profile_without_table :
    (Toml.parse arrayText).map (hasProfileTable · "ci") = some false ∧
      isThere arrayText "ci" = some true ∧
      (Toml.parse quotedText).map (hasProfileTable · "ci") = some false ∧
      isThere quotedText "ci" = some true := by
  decide +kernel

end TestLanes.CommandLine
