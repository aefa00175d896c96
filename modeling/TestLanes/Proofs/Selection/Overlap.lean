import TestLanes.Proofs.Estimate.Sources
import TestLanes.Proofs.Granularity.Extract
import TestLanes.Proofs.Selection.Coverage

/-!
# Entities that share patterns

Entities are kept apart by their keys, and selected by their patterns.  All entities of a map are of
one kind, be they taken from results or from files (`Made.kind_eq`), so two of them share a pattern
only if they are classes with the same path (`exists_shared_iff`), and then they share all patterns.

Such classes run together.  A lane that leaves patterns out runs one of them only if all of them are
its own, and a lane that lists what to run runs each of them if one of them is its own
(`runs_iff_of_kind`).  Where two of them are in different lanes, and patterns are left out only, no
lane runs either (`classes_share_patterns`).
-/

namespace TestLanes

open Entity (SamePath elements_eq_iff elements_eq_of_mem)

/-! ## 1. Kinds

Patterns of a class and of a case might be the same by accident, but no map has both.  `Made` lists
the ways in which the program comes by a map, each with the kind of all entities that it gives.
-/

/-- The maps that the program makes, and the kind of their entities. -/
inductive EntityMap.Made : EntityKind → EntityMap → Prop
  | extract {g : Granularity} {t : Report.Tree} {m : EntityMap} (h : g.extract t = .ok m) :
    Made g.entityKind m
  | classes {workspace : Estimate.Workspace} {m : EntityMap}
    (h : (Estimate.classes workspace).value = .ok m) : Made .testClass m
  | estimate {g : Granularity} {workspace : Estimate.Workspace} {m : EntityMap}
    (h : (g.estimate workspace).value = .ok m) : Made .testClass m

theorem Estimate.kind_of_mem_classes {workspace : Workspace} {m : EntityMap}
    (h : (classes workspace).value = .ok m) : ∀ e ∈ m.toList, e.kind = .testClass := by
  intro e he
  obtain ⟨paths, -, hpaths⟩ := bind_eq_ok_iff.mp h
  obtain ⟨path, -, hentity⟩ := (mem_ofPaths_iff hpaths).mp he
  obtain ⟨key, -, rfl⟩ := sourceEntity_eq_ok_iff.mp hentity
  rfl

namespace EntityMap

/-- **All entities of a map are of one kind.** -/
theorem Made.kind_eq {kind : EntityKind} {m : EntityMap} (h : Made kind m) :
    ∀ e ∈ m.toList, e.kind = kind := by
  cases h with
  | extract h => exact Granularity.kind_of_mem_extract h
  | classes h => exact Estimate.kind_of_mem_classes h
  | @estimate g _ _ h =>
    rw [Granularity.estimate] at h
    split at h
    · exact Estimate.kind_of_mem_classes h
    · obtain rfl := Except.ok.inj h
      exact fun e he => absurd he List.not_mem_nil

/-! ## 2. Shared patterns

Within one kind, two entities have the same patterns or none in common.  For cases the patterns tell
the key; for classes they tell the key up to the choice between dots and slashes.
-/

variable {kind : EntityKind} {m : EntityMap} (hkind : ∀ e ∈ m.toList, e.kind = kind)
include hkind

/-- In a map the entity with a key is the only one, so just paths can be the same. -/
theorem elements_eq_iff_of_mem {a b : Entity} (ha : a ∈ m.toList) (hb : b ∈ m.toList) :
    a.elements = b.elements ↔ a = b ∨ kind = .testClass ∧ SamePath a.key b.key := by
  have hkey : a.key = b.key ↔ a = b :=
    ⟨List.inj_on_of_nodup_map m.nodup_keys ha hb, congrArg Entity.key⟩
  rw [elements_eq_iff ((hkind a ha).trans (hkind b hb).symm), hkey, hkind a ha]

/-- **Entities share a pattern** only if they are classes with the same path. -/
theorem exists_shared_iff {a b : Entity} (ha : a ∈ m.toList) (hb : b ∈ m.toList) :
    (∃ x ∈ a.elements, x ∈ b.elements) ↔ a = b ∨ kind = .testClass ∧ SamePath a.key b.key := by
  rw [← elements_eq_iff_of_mem hkind ha hb]
  constructor
  · rintro ⟨x, hxa, hxb⟩
    exact elements_eq_of_mem ((hkind a ha).trans (hkind b hb).symm) hxa hxb
  · intro heq
    obtain ⟨x, hx⟩ := List.exists_mem_of_ne_nil _ a.elements_ne_nil
    exact ⟨x, hx, heq ▸ hx⟩

/-- No pattern is shared if each class has a path of its own. -/
theorem separate_iff : m.Separate ↔ (kind = .testClass →
    ∀ a ∈ m.toList, ∀ b ∈ m.toList, SamePath a.key b.key → a = b) := by
  constructor
  · intro hm hclass a ha b hb hpath
    obtain ⟨x, hxa, hxb⟩ := (exists_shared_iff hkind ha hb).mpr (.inr ⟨hclass, hpath⟩)
    exact hm a ha b hb x hxa hxb
  · intro hall a ha b hb x hxa hxb
    rcases (exists_shared_iff hkind ha hb).mp ⟨x, hxa, hxb⟩ with heq | ⟨hclass, hpath⟩
    · exact heq
    · exact hall hclass a ha b hb hpath

/-- Classes are told apart by their patterns if no key has a dot, or none has a slash. -/
theorem separate_of_notMem {separator : Char} (hseparator : separator ∈ ['.', '/'])
    (h : ∀ e ∈ m.toList, separator ∉ e.key.toList) : m.Separate :=
  (separate_iff hkind).mpr fun _ a ha b hb hpath =>
    List.inj_on_of_nodup_map m.nodup_keys ha hb (hpath.eq hseparator (h a ha) (h b hb))

end EntityMap

/-! ## 3. Who runs what

A lane lists a pattern of an entity if some entity with the same patterns is in the lane, or in
another one.  The quantifiers range over placements at first, and over the entities of the map in
the end.
-/

namespace Partition

/-- **Entities with the same patterns run together.**  If patterns are left out, a lane runs them
only if all of them are its own, and if it lists what to run, one of its own is enough. -/
theorem runs_iff_of_kind {p : Partition} {m : EntityMap} {n : Nat} (h : p.Spreads m n)
    {kind : EntityKind} (hkind : ∀ e ∈ m.toList, e.kind = kind) (inclusions : Bool) (lane : Nat)
    {q : Placement} (hq : q ∈ p.placements) :
    (p.selection inclusions lane).runs q.entity.test = true ↔
      if (p.selection inclusions lane).kind = .inclusion then
        ∃ r ∈ p.placements, r.entity.elements = q.entity.elements ∧ r.lane = lane
      else ∀ r ∈ p.placements, r.entity.elements = q.entity.elements → r.lane = lane := by
  have hsame : ∀ r ∈ p.placements, ∀ x ∈ r.entity.elements, x ∈ q.entity.elements →
      r.entity.elements = q.entity.elements := fun r hr x hxr hxq =>
    elements_eq_of_mem ((hkind _ (h.entity_mem hr)).trans (hkind _ (h.entity_mem hq)).symm) hxr hxq
  obtain ⟨y, hy⟩ := List.exists_mem_of_ne_nil _ q.entity.elements_ne_nil
  cases hselection : (p.selection inclusions lane).kind with
  | inclusion =>
    rw [if_pos rfl, Selection.runs_of_inclusion hselection]
    constructor
    · intro hall
      obtain ⟨r, hr, hlane, hyr⟩ := mem_patterns_selection.mp (hall y hy)
      exact ⟨r, hr, hsame r hr y hyr hy, hlane.mpr hselection⟩
    · rintro ⟨r, hr, heq, hlane⟩ x hx
      have hlisted : r.lane = lane ↔ (p.selection inclusions lane).kind = .inclusion :=
        iff_of_true hlane hselection
      exact mem_patterns_selection.mpr ⟨r, hr, hlisted, heq ▸ hx⟩
  | exclusion =>
    have hne : (p.selection inclusions lane).kind ≠ .inclusion := by rw [hselection]; decide
    rw [if_neg (by decide), Selection.runs_of_exclusion hselection]
    constructor
    · intro hnone r hr heq
      refine Decidable.byContradiction fun hlane => hnone y hy (mem_patterns_selection.mpr ?_)
      exact ⟨r, hr, iff_of_false hlane hne, heq ▸ hy⟩
    · intro hall x hx hmem
      obtain ⟨r, hr, hlane, hxr⟩ := mem_patterns_selection.mp hmem
      exact hne (hlane.mp (hall r hr (hsame r hr x hxr hx)))

section Lanes

variable {p : Partition} {m : EntityMap} {n : Nat} (h : p.Spreads m n) {P : Entity → Prop}
  {lane : Nat}
include h

/-- Some placement in a lane is some entity of this lane. -/
theorem Spreads.exists_placement_iff : (∃ r ∈ p.placements, P r.entity ∧ r.lane = lane) ↔
    ∃ b ∈ m.toList, P b ∧ p.laneOf? b.key = some lane := by
  constructor
  · rintro ⟨r, hr, hP, rfl⟩
    exact ⟨r.entity, h.entity_mem hr, hP, h.laneOf?_eq hr⟩
  · rintro ⟨b, hb, hP, hlane⟩
    obtain ⟨r, hr, rfl⟩ := h.exists_placement hb
    exact ⟨r, hr, hP, Option.some.inj ((h.laneOf?_eq hr).symm.trans hlane)⟩

/-- All placements in a lane are all entities in this lane. -/
theorem Spreads.forall_placement_iff : (∀ r ∈ p.placements, P r.entity → r.lane = lane) ↔
    ∀ b ∈ m.toList, P b → p.laneOf? b.key = some lane := by
  constructor
  · intro hall b hb hP
    obtain ⟨r, hr, rfl⟩ := h.exists_placement hb
    rw [h.laneOf?_eq hr, hall r hr hP]
  · intro hall r hr hP
    exact Option.some.inj ((h.laneOf?_eq hr).symm.trans (hall _ (h.entity_mem hr) hP))

end Lanes

/-- **Which entities share patterns, and what becomes of them.**  In a map that is made of results
in any granularity, or of source files, entities share a pattern only if they are classes whose keys
are the same but for dots and slashes.  So no pattern belongs to two test cases, and none to two
classes if no key has a dot, or none has a slash.  For any number of lanes but zero, a lane that
leaves patterns out runs an entity exactly if all entities with its patterns are in this lane, and
one that lists what to run runs it exactly if one of them is. -/
theorem shared_patterns {kind : EntityKind} {m : EntityMap} (h : m.Made kind) :
    (∀ a ∈ m.toList, ∀ b ∈ m.toList, (∃ x ∈ a.elements, x ∈ b.elements) ↔
      a = b ∨ kind = .testClass ∧ SamePath a.key b.key) ∧
    (kind = .testCase → m.Separate) ∧
    (∀ separator ∈ ['.', '/'], (∀ e ∈ m.toList, separator ∉ e.key.toList) → m.Separate) ∧
    ∀ n, 0 < n → ∀ inclusions, ∃ p, compute m n = .ok p ∧ ∀ a ∈ m.toList,
      ∀ i s, (p.selections inclusions)[i]? = some s → (s.runs a.test = true ↔
        if s.kind = .inclusion then
          ∃ b ∈ m.toList, b.elements = a.elements ∧ p.laneOf? b.key = some i
        else ∀ b ∈ m.toList, b.elements = a.elements → p.laneOf? b.key = some i) := by
  have hkind := h.kind_eq
  refine ⟨fun a ha b hb => EntityMap.exists_shared_iff hkind ha hb, fun hcase => ?_,
    fun separator hseparator hnone => EntityMap.separate_of_notMem hkind hseparator hnone,
    fun n hn inclusions => ?_⟩
  · refine (EntityMap.separate_iff hkind).mpr fun hclass => ?_
    exact absurd (hclass.symm.trans hcase) (by decide)
  · obtain ⟨p, hp, hspread⟩ := exists_compute m hn
    refine ⟨p, hp, fun a ha i s hs => ?_⟩
    obtain ⟨q, hq, rfl⟩ := hspread.exists_placement ha
    rw [eq_selection_of_getElem? hs, runs_iff_of_kind hspread hkind inclusions i hq,
      hspread.exists_placement_iff (P := fun b => b.elements = q.entity.elements),
      hspread.forall_placement_iff (P := fun b => b.elements = q.entity.elements)]

/-- Two files; the directories of one have a dot where those of the other one have a slash. -/
def alikeSources : List String :=
  ["src/test/java/a.b/FooTest.java", "src/test/java/a/b/FooTest.java"]

/-- Their entities. -/
def alikeEntities : EntityMap :=
  .ofList [⟨"a.b/FooTest", Entity.estimatedDuration, .testClass⟩,
    ⟨"a/b/FooTest", Entity.estimatedDuration, .testClass⟩]

theorem classes_alikeSources :
    (Estimate.classes fun _ => pure (.ok alikeSources)).value = .ok alikeEntities := rfl

/-- They have the same patterns, so a lane runs both of them if both are its own. -/
theorem shared_patterns_alikeEntities :
    alikeEntities.Made .testClass ∧ alikeEntities.size = 2 ∧
      (∀ a ∈ alikeEntities.toList, ∀ b ∈ alikeEntities.toList,
        (∃ x ∈ a.elements, x ∈ b.elements) ↔
          a = b ∨ EntityKind.testClass = .testClass ∧ SamePath a.key b.key) ∧
      ∃ p, compute alikeEntities 2 = .ok p ∧ ∀ a ∈ alikeEntities.toList,
        ∀ i s, (p.selections false)[i]? = some s → (s.runs a.test = true ↔
          if s.kind = .inclusion then
            ∃ b ∈ alikeEntities.toList, b.elements = a.elements ∧ p.laneOf? b.key = some i
          else ∀ b ∈ alikeEntities.toList, b.elements = a.elements → p.laneOf? b.key = some i) :=
  have hmade := EntityMap.Made.classes classes_alikeSources
  have hshared := shared_patterns hmade
  ⟨hmade, by decide, hshared.1, hshared.2.2.2 2 (by decide) false⟩

def alikePartition : Partition where
  placements := [⟨⟨"a.b/FooTest", Entity.estimatedDuration, .testClass⟩, 0⟩,
    ⟨⟨"a/b/FooTest", Entity.estimatedDuration, .testClass⟩, 1⟩]
  totals := [Entity.estimatedDuration, Entity.estimatedDuration]

def alikeCases : List Report.Case :=
  [{ className := "a.B", name := "run" }, { className := "a/B", name := "run" }]

/-- Their entities. -/
def slashedEntities : EntityMap := .ofList [⟨"a.B", 0, .testClass⟩, ⟨"a/B", 0, .testClass⟩]

/-- **Distinct classes can share their patterns.**  Two files, or the results of two classes, give
distinct entities with the same patterns.  Each of two lanes leaves out what the other one has, and
so neither lane runs any of the two files. -/
theorem classes_share_patterns :
    (Estimate.classes fun _ => pure (.ok alikeSources)).value = .ok alikeEntities ∧
      ¬ alikeEntities.Separate ∧
      compute alikeEntities 2 = .ok alikePartition ∧
      (∀ s ∈ alikePartition.selections false,
        s.patterns = ["a/b/FooTest.java", "a/b/FooTest.class"]) ∧
      (∀ s ∈ alikePartition.selections false, ∀ e ∈ alikeEntities.toList,
        s.runs e.test = false) ∧
      Granularity.extract .testClass (.ofCases "run 1" alikeCases) = .ok slashedEntities ∧
      ¬ slashedEntities.Separate :=
  ⟨classes_alikeSources, by decide,
    compute_of_pairwise
      (s := ⟨[⟨Entity.estimatedDuration, 0⟩, ⟨Entity.estimatedDuration, 1⟩],
        alikePartition.placements.reverse⟩) (by decide) (by decide) (by decide) (by decide),
    by decide, by decide, rfl, by decide⟩

end Partition

end TestLanes
