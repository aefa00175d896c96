import TestLanes.Parallelism.Basic
import TestLanes.Proofs.Selection.Coverage

/-!
# Lanes without entities

A count of lanes is cut down to the number of entities, but that does not give every lane an entity.
An entity without time leaves its lane as light as it was, so the next one goes there too.

The lanes that hold time are the first ones, as many as there are entities with time
(`Greedy.laneLoad_pos_iff`).  Entities without time come last and all go to the first lane behind
those, if there is one, so this is the last lane that has an entity (`Greedy.exists_lane_iff`).
`compute_count_idle_iff` says which lanes of a count stay idle, and `compute_count_timeless` has two
entities that leave one of two lanes idle.
-/

namespace TestLanes

/-! ## 1. Entities with time

An entity takes time if its duration is not zero.  Entities that take time are counted in a map and
among the placements; the second count is what the induction below goes along with.
-/

def Entity.isTimed (e : Entity) : Bool := decide (0 < e.time)

/-- The number of placed entities that take time. -/
def timedPlaced (placed : List Placement) : Nat := placed.countP fun p => p.entity.isTimed

def EntityMap.timedCount (m : EntityMap) : Nat := m.toList.countP Entity.isTimed

theorem timedPlaced_le_length (placed : List Placement) : timedPlaced placed ≤ placed.length :=
  List.countP_le_length

theorem timedPlaced_cons_of_pos {p : Placement} (h : p.entity.isTimed = true)
    (placed : List Placement) : timedPlaced (p :: placed) = timedPlaced placed + 1 :=
  List.countP_cons_of_pos h

theorem timedPlaced_cons_of_neg {p : Placement} (h : ¬ p.entity.isTimed = true)
    (placed : List Placement) : timedPlaced (p :: placed) = timedPlaced placed :=
  List.countP_cons_of_neg h

/-! ## 2. Lanes that hold time

While fewer entities with time are placed than there are lanes, the next lane behind those that hold
time is the first of the lightest: it holds nothing, and all before it hold something.  So an entity
with time makes it one more lane, and one without changes nothing.
-/

/-- An entity with time gives its lane a load. -/
theorem laneLoad_cons_pos {p : Placement} (h : p.entity.isTimed = true) (placed : List Placement) :
    0 < laneLoad (p :: placed) p.lane := by
  have htime : 0 < p.entity.duration.val := of_decide_eq_true h
  have hceiling : 0 < Millis.ceiling := by decide
  rw [laneLoad_cons, if_pos rfl, Millis.lt_def, Millis.val_zero, Millis.val_add]
  omega

/-- An entity without time changes no load. -/
theorem laneLoad_cons_of_neg {p : Placement} (h : ¬ p.entity.isTimed = true)
    (placed : List Placement) : laneLoad (p :: placed) = laneLoad placed := by
  have htime : p.entity.time = 0 := Nat.eq_zero_of_not_pos fun hpos => h (decide_eq_true hpos)
  funext lane
  refine Millis.ext ?_
  rw [val_laneLoad, val_laneLoad, laneTime_cons, htime, Nat.zero_add, ite_self]

/-- If exactly the first lanes hold time, the one behind them is the first of the lightest. -/
theorem FirstLightest.eq_of_loads {n k lane : Nat} {placed : List Placement}
    (h : FirstLightest n placed lane) (hk : k < n)
    (hloads : ∀ l < n, 0 < laneLoad placed l ↔ l < k) : lane = k := by
  have hnone : ¬ 0 < laneLoad placed k := fun hpos => Nat.lt_irrefl k ((hloads k hk).mp hpos)
  rcases Nat.lt_trichotomy lane k with hlt | heq | hgt
  · exact absurd (Nat.lt_of_lt_of_le ((hloads lane h.lt).mpr hlt) (h.least k hk)) hnone
  · exact heq
  · exact absurd (Nat.lt_of_le_of_lt (Nat.zero_le _) (h.first k hgt)) hnone

/-- **The lanes that hold time are the first ones**, as many as there are entities with time. -/
theorem Greedy.laneLoad_pos_iff {n : Nat} {placed : List Placement} (h : Greedy n placed) :
    ∀ l < n, 0 < laneLoad placed l ↔ l < timedPlaced placed := by
  induction placed with
  | nil => exact fun l _ => iff_of_false (Nat.lt_irrefl 0) (Nat.not_lt_zero l)
  | cons p placed ih =>
    intro l hl
    obtain ⟨hrule, hrest⟩ := h
    have hloads := ih hrest
    by_cases hp : p.entity.isTimed = true
    · rw [timedPlaced_cons_of_pos hp]
      by_cases hlane : p.lane = l
      · refine iff_of_true (hlane ▸ laneLoad_cons_pos hp placed) ?_
        rcases Nat.lt_or_ge (timedPlaced placed) n with hroom | hfull
        · exact Nat.lt_succ_of_le (Nat.le_of_eq (hlane ▸ hrule.eq_of_loads hroom hloads))
        · omega
      · have hne : l ≠ timedPlaced placed := fun heq =>
          hlane ((hrule.eq_of_loads (heq ▸ hl) hloads).trans heq.symm)
        rw [laneLoad_cons, if_neg hlane, hloads l hl]
        omega
    · rw [laneLoad_cons_of_neg hp, timedPlaced_cons_of_neg hp]
      exact hloads l hl

/-! ## 3. Lanes that have an entity

Here the order of placing matters.  As the heaviest come first, the entities without time come when
all others have been placed, and from then on the first of the lightest lanes is always the same.
-/

/-- Behind an entity with time there are none without, if the heaviest were placed first. -/
theorem timedPlaced_eq_length {p : Placement} {placed : List Placement}
    (hp : p.entity.isTimed = true) (h : ∀ q ∈ placed, p.entity.duration ≤ q.entity.duration) :
    timedPlaced placed = placed.length :=
  List.countP_eq_length.mpr fun q hq =>
    decide_eq_true (Nat.lt_of_lt_of_le (of_decide_eq_true hp) (h q hq))

/-- **The lanes that have an entity are the first ones**: those that hold time, and one more if
there are entities without. -/
theorem Greedy.exists_lane_iff {n : Nat} {placed : List Placement} (h : Greedy n placed)
    (hsorted : placed.Pairwise fun a b => a.entity.duration ≤ b.entity.duration) :
    ∀ l < n, (∃ p ∈ placed, p.lane = l) ↔ l < placed.length ∧ l ≤ timedPlaced placed := by
  induction placed with
  | nil => exact fun l _ => iff_of_false (fun ⟨_, hp, _⟩ => nomatch hp) (fun h => nomatch h.1)
  | cons p placed ih =>
    intro l hl
    obtain ⟨hheavier, hsorted⟩ := List.pairwise_cons.mp hsorted
    have hrule : timedPlaced placed < n → p.lane = timedPlaced placed :=
      fun hroom => h.1.eq_of_loads hroom h.2.laneLoad_pos_iff
    have hle := timedPlaced_le_length placed
    rw [List.exists_mem_cons_iff, ih h.2 hsorted l hl, List.length_cons]
    by_cases hp : p.entity.isTimed = true
    · have hall := timedPlaced_eq_length hp hheavier
      rw [timedPlaced_cons_of_pos hp]
      omega
    · rw [timedPlaced_cons_of_neg hp]
      omega

namespace Partition

/-- **Which lanes of a partition are idle.** -/
theorem Spreads.laneEntities_eq_nil_iff {p : Partition} {m : EntityMap} {n : Nat}
    (h : p.Spreads m n) {lane : Nat} (hlane : lane < n) :
    p.laneEntities lane = [] ↔ m.size ≤ lane ∨ m.timedCount < lane := by
  have hsorted : p.placements.reverse.Pairwise
      fun a b => a.entity.duration ≤ b.entity.duration := by
    have hheaviest := pairwise_heaviestFirst m
    rw [← h.entities, List.pairwise_map] at hheaviest
    exact List.pairwise_reverse.mpr hheaviest
  have hlength : p.placements.reverse.length = m.size := by
    rw [List.length_reverse, ← List.length_map Placement.entity, h.entities_perm.length_eq]
    rfl
  have htimed : timedPlaced p.placements.reverse = m.timedCount := by
    rw [timedPlaced, List.countP_reverse, EntityMap.timedCount, ← h.entities_perm.countP_eq,
      List.countP_map]
    rfl
  have hbusy := h.greedy.exists_lane_iff hsorted lane hlane
  rw [hlength, htimed] at hbusy
  have hidle : p.laneEntities lane = [] ↔ ¬ ∃ q ∈ p.placements.reverse, q.lane = lane := by
    rw [laneEntities, List.map_eq_nil_iff, List.filter_eq_nil_iff]
    simp
  rw [hidle, hbusy]
  omega

/-- The list of what a lane runs is empty exactly if it has no entity. -/
theorem patterns_selection_eq_nil_iff {p : Partition} {lane : Nat} (hlane : lane ≠ 0) :
    (p.selection true lane).patterns = [] ↔ p.laneEntities lane = [] := by
  have hkind : (p.selection true lane).kind = .inclusion :=
    (p.kind_selection true lane).mpr ⟨rfl, hlane⟩
  have hpatterns : (p.selection true lane).patterns
      = (p.laneEntities lane).flatMap Entity.elements := by
    rw [laneEntities, ← listed_inclusion, ← hkind]
    rfl
  rw [hpatterns, List.flatMap_eq_nil_iff]
  constructor
  · intro hnone
    exact List.eq_nil_iff_forall_not_mem.mpr fun e he => e.elements_ne_nil (hnone e he)
  · intro hnil e he
    exact absurd (hnil ▸ he) List.not_mem_nil

/-! ## 4. Lanes of a count

A count of lanes is cut down to the number of entities, so of the two reasons for an idle lane, too
few entities and too few with time, only the second is left.
-/

/-- **Idle lanes under a count.**  Any entities, as long as there are some, are spread over a count
of lanes, which is cut down to the number of entities.  A lane has no entity exactly if its number
is above the number of entities that take time; and then its list of what to run is empty.  So no
lane is idle exactly if at most one entity takes no time, or the count is at most one above the
number of those that take time. -/
theorem compute_count_idle_iff {m : EntityMap} (hm : m.isEmpty = false) {n : Nat} (hn : 0 < n) :
    ∃ p, compute m ((Parallelism.count n).lanes m) = .ok p ∧
      p.laneCount = min n m.size ∧
      (∀ lane < p.laneCount, p.laneEntities lane = [] ↔ m.timedCount < lane) ∧
      (∀ lane s, lane ≠ 0 → (p.selections true)[lane]? = some s →
        s.kind = .inclusion ∧ (s.patterns = [] ↔ m.timedCount < lane)) ∧
      ((∀ lane < p.laneCount, p.laneEntities lane ≠ []) ↔
        m.size ≤ m.timedCount + 1 ∨ n ≤ m.timedCount + 1) := by
  have hsize : 0 < m.size := List.length_pos_iff.mpr fun hnil => by
    rw [EntityMap.isEmpty, hnil] at hm
    exact nomatch hm
  obtain ⟨p, hp, hspread⟩ := exists_compute m (Nat.lt_min.mpr ⟨hn, hsize⟩)
  have hlanes : p.laneCount = min n m.size := hspread.laneCount_eq
  have hidle : ∀ lane < p.laneCount, p.laneEntities lane = [] ↔ m.timedCount < lane := by
    intro lane hlane
    rw [hspread.laneEntities_eq_nil_iff (hlanes ▸ hlane)]
    omega
  refine ⟨p, hp, hlanes, hidle, fun lane s hne hs => ?_, ?_⟩
  · have hlane : lane < p.laneCount := by
      have hlt := (List.getElem?_eq_some_iff.mp hs).1
      rwa [length_selections hspread, ← hlanes] at hlt
    rw [eq_selection_of_getElem? hs, patterns_selection_eq_nil_iff hne, hidle lane hlane]
    exact ⟨(p.kind_selection true lane).mpr ⟨rfl, hne⟩, Iff.rfl⟩
  · constructor
    · intro hbusy
      by_contra hmany
      have hlane : m.timedCount + 1 < p.laneCount := by omega
      exact hbusy _ hlane ((hidle _ hlane).mpr (Nat.lt_succ_self _))
    · intro hfew lane hlane hnil
      have habove := (hidle lane hlane).mp hnil
      omega

/-- One entity with more time than fits in 64 bits, one with a little, and three without any. -/
def mostlyTimeless : EntityMap :=
  .ofList [⟨"a.LongTest", .ofNat (Nat.pow 2 64), .testClass⟩, ⟨"a.NewTest", 0, .testClass⟩,
    ⟨"a.QuickTest", .ofNat 1, .testClass⟩, ⟨"b.IdleTest", 0, .testClass⟩,
    ⟨"b.NewTest", 0, .testClass⟩]

/-- Of four lanes the last one is idle. -/
theorem compute_count_idle_iff_mostlyTimeless :
    mostlyTimeless.isEmpty = false ∧ mostlyTimeless.size = 5 ∧ mostlyTimeless.timedCount = 2 ∧
      ∃ p, compute mostlyTimeless ((Parallelism.count 4).lanes mostlyTimeless) = .ok p ∧
        p.laneCount = min 4 mostlyTimeless.size ∧
        (∀ lane < p.laneCount, p.laneEntities lane = [] ↔ mostlyTimeless.timedCount < lane) ∧
        (∀ lane s, lane ≠ 0 → (p.selections true)[lane]? = some s →
          s.kind = .inclusion ∧ (s.patterns = [] ↔ mostlyTimeless.timedCount < lane)) ∧
        ((∀ lane < p.laneCount, p.laneEntities lane ≠ []) ↔
          mostlyTimeless.size ≤ mostlyTimeless.timedCount + 1 ∨
            4 ≤ mostlyTimeless.timedCount + 1) :=
  ⟨by decide, by decide, by decide, compute_count_idle_iff (by decide) (by decide)⟩

def timeless : EntityMap := .ofList [⟨"a", 0, .testCase⟩, ⟨"b", 0, .testCase⟩]

/-- Both of them in the first one of two lanes. -/
def timelessPartition : Partition where
  placements := [⟨⟨"a", 0, .testCase⟩, 0⟩, ⟨⟨"b", 0, .testCase⟩, 0⟩]
  totals := [0, 0]

/-- **A count can leave a lane idle.**  Two entities are spread over two lanes, and the second lane
has nothing to run. -/
theorem compute_count_timeless :
    timeless.isEmpty = false ∧ (Parallelism.count 2).lanes timeless = 2 ∧
      compute timeless 2 = .ok timelessPartition ∧ timelessPartition.laneEntities 1 = [] ∧
      (timelessPartition.selections true)[1]? = some ⟨.inclusion, []⟩ :=
  ⟨by decide, by decide,
    compute_of_pairwise (s := ⟨freshQueue 2, timelessPartition.placements.reverse⟩) (by decide)
      (by decide) (by decide) (by decide),
    by decide, by decide⟩

end Partition

end TestLanes
