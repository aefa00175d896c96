import TestLanes.Selection
import TestLanes.Proofs.Partition.Greedy

/-!
# Every test runs in one lane

A selection is read as its lane reads it (`Selection.runs`): an exclusion runs a test unless one of
its patterns is listed, an inclusion runs it if its patterns are listed.  As long as no two entities
share a pattern, what is listed for a lane tells the lane of each entity (`listed_iff`), with either
polarity, so an entity runs in its lane and in no other.  Tests that belong to no entity run where
nothing has to be listed.
-/

namespace TestLanes

/-! ## 1. Reading a selection

A test is known by the patterns that select it; it has at least one, and an entity stands for the
test with its own.  A lane that lists what to run needs all patterns of a test, and a lane that
lists what to leave out needs none of them to be listed.
-/

/-- A test, with the patterns that select it. -/
structure Test where
  patterns : List String
  nonempty : patterns ≠ []

theorem Entity.elements_ne_nil (e : Entity) : e.elements ≠ [] := by
  unfold elements
  split <;> exact List.cons_ne_nil _ _

/-- An entity as a test. -/
def Entity.test (e : Entity) : Test := ⟨e.elements, e.elements_ne_nil⟩

/-- Whether a lane with this selection runs the test. -/
def Selection.runs (s : Selection) (t : Test) : Bool :=
  match s.kind with
  | .inclusion => t.patterns.all s.patterns.contains
  | .exclusion => !t.patterns.any s.patterns.contains

theorem Selection.runs_of_inclusion {s : Selection} (h : s.kind = .inclusion) {t : Test} :
    s.runs t = true ↔ ∀ x ∈ t.patterns, x ∈ s.patterns := by
  simp [runs, h]

theorem Selection.runs_of_exclusion {s : Selection} (h : s.kind = .exclusion) {t : Test} :
    s.runs t = true ↔ ∀ x ∈ t.patterns, x ∉ s.patterns := by
  simp [runs, h]

/-- No pattern belongs to two entities. -/
def EntityMap.Separate (m : EntityMap) : Prop :=
  ∀ a ∈ m.toList, ∀ b ∈ m.toList, ∀ x ∈ a.elements, x ∈ b.elements → a = b

instance (m : EntityMap) : Decidable m.Separate :=
  inferInstanceAs (Decidable (∀ a ∈ m.toList, ∀ b ∈ m.toList, ∀ x ∈ a.elements,
    x ∈ b.elements → a = b))

/-! ## 2. What is listed

A lane lists its own entities or those of all other lanes.  The two are one lemma, in which the kind
of the selection and the lane of the entity say whether the entity is listed.
-/

namespace Partition

/-- The selection of a lane lists patterns to run if inclusions are made and it is not the first. -/
theorem kind_selection (p : Partition) (inclusions : Bool) (lane : Nat) :
    (p.selection inclusions lane).kind = .inclusion ↔ inclusions = true ∧ lane ≠ 0 := by
  cases inclusions <;> by_cases h : lane = 0 <;> simp [selection, h]

/-- An inclusion lists the entities of its lane. -/
theorem listed_inclusion (p : Partition) (lane : Nat) :
    p.listed .inclusion lane
      = (p.placements.filter fun q => q.lane = lane).map Placement.entity := by
  simp [listed]

/-- An exclusion lists the entities of the other lanes. -/
theorem listed_exclusion (p : Partition) (lane : Nat) :
    p.listed .exclusion lane
      = (p.placements.filter fun q => q.lane ≠ lane).map Placement.entity := by
  simp [listed]

theorem mem_listed {p : Partition} {kind : SelectionKind} {lane : Nat} {e : Entity} :
    e ∈ p.listed kind lane ↔
      ∃ q ∈ p.placements, (q.lane = lane ↔ kind = .inclusion) ∧ q.entity = e := by
  cases kind with
  | inclusion => simp [listed_inclusion, and_assoc]
  | exclusion => simp [listed_exclusion, and_assoc]

theorem mem_patterns_selection {p : Partition} {inclusions : Bool} {lane : Nat} {x : String} :
    x ∈ (p.selection inclusions lane).patterns ↔ ∃ q ∈ p.placements,
      (q.lane = lane ↔ (p.selection inclusions lane).kind = .inclusion) ∧
        x ∈ q.entity.elements := by
  constructor
  · intro hx
    obtain ⟨e, he, hx⟩ := List.mem_flatMap.mp hx
    obtain ⟨q, hq, hkind, rfl⟩ := mem_listed.mp he
    exact ⟨q, hq, hkind, hx⟩
  · rintro ⟨q, hq, hkind, hx⟩
    exact List.mem_flatMap.mpr ⟨q.entity, mem_listed.mpr ⟨q, hq, hkind, rfl⟩, hx⟩

/-- **What is listed tells the lane.**  A pattern of a placed entity is listed for its lane by the
inclusion, and for all others by the exclusions. -/
theorem listed_iff {p : Partition} {m : EntityMap} {n : Nat} (h : p.Spreads m n) (hm : m.Separate)
    {inclusions : Bool} {lane : Nat} {q : Placement} (hq : q ∈ p.placements) {x : String}
    (hx : x ∈ q.entity.elements) : x ∈ (p.selection inclusions lane).patterns ↔
      (q.lane = lane ↔ (p.selection inclusions lane).kind = .inclusion) := by
  rw [mem_patterns_selection]
  constructor
  · rintro ⟨r, hr, hkind, hxr⟩
    have hentity : r.entity = q.entity := hm _ (h.entity_mem hr) _ (h.entity_mem hq) x hxr hx
    rwa [h.eq_of_key_eq hr hq (congrArg Entity.key hentity)] at hkind
  · exact fun hkind => ⟨q, hq, hkind, hx⟩

/-! ## 3. Who runs what

For the tests of entities the listing of one pattern decides about all of them, as they are listed
together.  No pattern of an unknown test is listed anywhere, so only the kind of the selection
counts.
-/

/-- **An entity runs in its lane and in no other.** -/
theorem runs_entity_iff {p : Partition} {m : EntityMap} {n : Nat} (h : p.Spreads m n)
    (hm : m.Separate) (inclusions : Bool) (lane : Nat) {q : Placement} (hq : q ∈ p.placements) :
    (p.selection inclusions lane).runs q.entity.test = true ↔ lane = q.lane := by
  have hlisted : ∀ x ∈ q.entity.test.patterns, x ∈ (p.selection inclusions lane).patterns ↔
      (q.lane = lane ↔ (p.selection inclusions lane).kind = .inclusion) :=
    fun x hx => listed_iff h hm hq hx
  obtain ⟨y, hy⟩ := List.exists_mem_of_ne_nil _ q.entity.test.nonempty
  cases hkind : (p.selection inclusions lane).kind with
  | inclusion =>
    rw [Selection.runs_of_inclusion hkind]
    constructor
    · exact fun hall => (((hlisted y hy).mp (hall y hy)).mpr hkind).symm
    · exact fun hlane x hx => (hlisted x hx).mpr ⟨fun _ => hkind, fun _ => hlane.symm⟩
  | exclusion =>
    have hne : (p.selection inclusions lane).kind ≠ .inclusion := by rw [hkind]; decide
    rw [Selection.runs_of_exclusion hkind]
    constructor
    · intro hnone
      refine Decidable.byContradiction fun hlane => hnone y hy ((hlisted y hy).mpr ?_)
      exact ⟨fun heq => absurd heq.symm hlane, fun heq => absurd heq hne⟩
    · exact fun hlane x hx hmem => hne (((hlisted x hx).mp hmem).mp hlane.symm)

/-- **A test of no entity runs where patterns are left out**, and only there. -/
theorem runs_unknown_iff {p : Partition} {m : EntityMap} {n : Nat} (h : p.Spreads m n)
    (inclusions : Bool) (lane : Nat) {t : Test}
    (ht : ∀ e ∈ m.toList, ∀ x ∈ t.patterns, x ∉ e.elements) :
    (p.selection inclusions lane).runs t = true ↔ (inclusions = true → lane = 0) := by
  have hnot : ∀ x ∈ t.patterns, x ∉ (p.selection inclusions lane).patterns := by
    intro x hx hmem
    obtain ⟨q, hq, -, hxq⟩ := mem_patterns_selection.mp hmem
    exact ht _ (h.entity_mem hq) x hx hxq
  obtain ⟨y, hy⟩ := List.exists_mem_of_ne_nil _ t.nonempty
  cases hkind : (p.selection inclusions lane).kind with
  | inclusion =>
    obtain ⟨hinclusions, hlane⟩ := (p.kind_selection inclusions lane).mp hkind
    rw [Selection.runs_of_inclusion hkind]
    constructor
    · exact fun hall => absurd (hall y hy) (hnot y hy)
    · exact fun himp => absurd (himp hinclusions) hlane
  | exclusion =>
    have hne : ¬ (inclusions = true ∧ lane ≠ 0) := by
      rw [← p.kind_selection inclusions lane, hkind]
      decide
    rw [Selection.runs_of_exclusion hkind]
    constructor
    · exact fun _ hinclusions => Decidable.byContradiction fun hlane => hne ⟨hinclusions, hlane⟩
    · exact fun _ => hnot

/-! ## 4. All lanes

The selections of a partition are numbered as its lanes are.  That the inclusions and the exclusion
of the first lane match is shown for the entities that they list, as a list of blocks.
-/

theorem length_selections {p : Partition} {m : EntityMap} {n : Nat} (h : p.Spreads m n)
    (inclusions : Bool) : (p.selections inclusions).length = n := by
  rw [selections, List.length_map, List.length_range, h.laneCount_eq]

/-- The selection at an index is that of the lane with this number. -/
theorem eq_selection_of_getElem? {p : Partition} {inclusions : Bool} {lane : Nat} {s : Selection}
    (h : (p.selections inclusions)[lane]? = some s) : s = p.selection inclusions lane := by
  rw [selections, List.getElem?_map, Option.map_eq_some_iff] at h
  obtain ⟨l, hl, rfl⟩ := h
  rw [(List.getElem?_eq_some_iff.mp hl).2.symm, List.getElem_range]

/-- The lanes behind the first one list together what the first one leaves out. -/
theorem flatMap_listed_perm {p : Partition} {m : EntityMap} {k : Nat} (h : p.Spreads m (k + 1)) :
    ((List.range k).flatMap fun lane => p.listed .inclusion (lane + 1)).Perm
      (p.listed .exclusion 0) := by
  have hlater : ∀ lane, p.placements.filter (fun q => q.lane = lane + 1)
      = (p.placements.filter fun q => q.lane ≠ 0).filter fun q => q.lane - 1 = lane := by
    intro lane
    rw [List.filter_filter]
    refine List.filter_congr fun q _ => ?_
    simp only [← Bool.decide_and, decide_eq_decide]
    omega
  have hbelow : ∀ q ∈ p.placements.filter fun q => q.lane ≠ 0, q.lane - 1 ∈ List.range k := by
    intro q hq
    obtain ⟨hq, hne⟩ := List.mem_filter.mp hq
    have hlane := h.lane_lt hq
    have hne := of_decide_eq_true hne
    rw [List.mem_range]
    omega
  have hperm : ((List.range k).flatMap fun l =>
      (p.placements.filter fun q => q.lane ≠ 0).filter fun q => q.lane - 1 = l).Perm
        (p.placements.filter fun q => q.lane ≠ 0) :=
    flatMap_filter_perm_self List.nodup_range hbelow
  simp only [listed_inclusion, listed_exclusion, hlater, ← List.map_flatMap]
  exact hperm.map Placement.entity

/-- **Inclusions and the exclusion of the first lane match.** -/
theorem exists_selections_cons {p : Partition} {m : EntityMap} {n : Nat} (h : p.Spreads m n)
    (hn : 0 < n) : ∃ s rest, p.selections true = s :: rest ∧
      (rest.flatMap Selection.patterns).Perm s.patterns := by
  obtain ⟨k, rfl⟩ : ∃ k, n = k + 1 := ⟨n - 1, by omega⟩
  refine ⟨p.selection true 0, (List.range k).map fun lane => p.selection true (lane + 1), ?_, ?_⟩
  · rw [selections, h.laneCount_eq, List.range_succ_eq_map, List.map_cons, List.map_map]
    rfl
  · have hpatterns : ((List.range k).map fun lane => p.selection true (lane + 1)).flatMap
        Selection.patterns
          = ((List.range k).flatMap fun lane => p.listed .inclusion (lane + 1)).flatMap
              Entity.elements := by
      rw [List.flatMap_map, List.flatMap_assoc]
      rfl
    rw [hpatterns]
    exact (flatMap_listed_perm h).flatMap_right Entity.elements

/-- **Every known test runs in exactly one lane.**  If no pattern belongs to two entities, then for
any number of lanes but zero there is one selection for each lane; each entity has a lane, and that
one runs it and no other does; a test of no entity is run by the first lane alone if inclusions are
made, and by every lane otherwise; and inclusions list together what the first lane leaves out. -/
theorem selections_cover {m : EntityMap} (hm : m.Separate) {n : Nat} (hn : 0 < n)
    (inclusions : Bool) :
    ∃ p, compute m n = .ok p ∧ (p.selections inclusions).length = n ∧
      (∀ e ∈ m.toList, ∃ lane < n, p.laneOf? e.key = some lane ∧
        ∀ i s, (p.selections inclusions)[i]? = some s → (s.runs e.test = true ↔ i = lane)) ∧
      (∀ t : Test, (∀ e ∈ m.toList, ∀ x ∈ t.patterns, x ∉ e.elements) →
        ∀ i s, (p.selections inclusions)[i]? = some s →
          (s.runs t = true ↔ (inclusions = true → i = 0))) ∧
      (inclusions = true → ∃ s rest, p.selections inclusions = s :: rest ∧
        (rest.flatMap Selection.patterns).Perm s.patterns) := by
  obtain ⟨p, hp, hspread⟩ := exists_compute m hn
  refine ⟨p, hp, length_selections hspread inclusions, fun e he => ?_, fun t ht i s hs => ?_, ?_⟩
  · obtain ⟨q, hq, rfl⟩ := hspread.exists_placement he
    refine ⟨q.lane, hspread.lane_lt hq, hspread.laneOf?_eq hq, fun i s hs => ?_⟩
    rw [eq_selection_of_getElem? hs]
    exact runs_entity_iff hspread hm inclusions i hq
  · rw [eq_selection_of_getElem? hs]
    exact runs_unknown_iff hspread inclusions i ht
  · rintro rfl
    exact exists_selections_cons hspread hn

def threeTests : EntityMap :=
  .ofList [⟨"org.a.FastTest", .ofNat 5, .testClass⟩, ⟨"org.a.SlowTest", .ofNat 9, .testClass⟩,
    ⟨"org/a", .ofNat 4, .testCase⟩]

/-- Two lanes cover them, the second one by what it runs. -/
theorem selections_cover_threeTests :
    threeTests.Separate ∧ threeTests.size = 3 ∧
      ∃ p, compute threeTests 2 = .ok p ∧ (p.selections true).length = 2 ∧
        (∀ e ∈ threeTests.toList, ∃ lane < 2, p.laneOf? e.key = some lane ∧
          ∀ i s, (p.selections true)[i]? = some s → (s.runs e.test = true ↔ i = lane)) ∧
        (∀ t : Test, (∀ e ∈ threeTests.toList, ∀ x ∈ t.patterns, x ∉ e.elements) →
          ∀ i s, (p.selections true)[i]? = some s →
            (s.runs t = true ↔ (true = true → i = 0))) ∧
        (true = true → ∃ s rest, p.selections true = s :: rest ∧
          (rest.flatMap Selection.patterns).Perm s.patterns) :=
  ⟨by decide, by decide, selections_cover (by decide) (by decide) true⟩

end Partition

end TestLanes
