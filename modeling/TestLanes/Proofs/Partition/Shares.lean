import TestLanes.Partition.Stats
import TestLanes.Proofs.Partition.Greedy

/-!
# Lanes share out the entities

A partition of any entities over any number of lanes but zero is made without a fault, and its views
tell one and the same story (`compute_shares_entities`).  The lane of an entity, the entities of a
lane and the total of a lane are read off the same placements, so the lanes hold all entities, each
in one place, and a total is the exact time of its lane, cut off once.  Cutting off lane by lane and
cutting off their sum comes to cutting off the time of all entities once (`val_sum_totals`).
-/

namespace TestLanes.Partition

/-- What statistics say about the number of lanes and the time is what the totals say. -/
theorem of_stats_eq_ok {p : Partition} {s : Stats} (h : p.stats = .ok s) :
    s.laneCount = p.laneCount ∧ s.total = (Millis.sum p.totals).val := by
  unfold stats at h
  dsimp only at h
  split at h
  · exact Except.ok.inj h ▸ ⟨rfl, rfl⟩
  · exact absurd h (fun h => nomatch h)

namespace Spreads

variable {p : Partition} {m : EntityMap} {n : Nat}

/-! ## 1. Lanes and entities -/

/-- Exactly the entities of the map have a lane. -/
theorem laneOf?_eq_none_iff (h : p.Spreads m n) (k : String) :
    p.laneOf? k = none ↔ m.get? k = none := by
  rw [laneOf?, Option.map_eq_none_iff, EntityMap.get?, List.find?_eq_none, List.find?_eq_none]
  constructor
  · intro hnone e he
    obtain ⟨q, hq, rfl⟩ := h.exists_placement he
    exact hnone q hq
  · exact fun hnone q hq => hnone _ (h.entity_mem hq)

/-- A lane is one of the `n` lanes. -/
theorem laneOf?_lt (h : p.Spreads m n) {k : String} {lane : Nat} (hk : p.laneOf? k = some lane) :
    lane < n := by
  obtain ⟨q, hq, rfl⟩ := Option.map_eq_some_iff.mp hk
  exact h.lane_lt (List.mem_of_find?_eq_some hq)

/-- The entities of a lane are those whose lane it is. -/
theorem laneEntities_eq_filter (h : p.Spreads m n) (lane : Nat) :
    p.laneEntities lane = p.entities.filter fun e => p.laneOf? e.key = some lane := by
  rw [laneEntities, Partition.entities, List.filter_map]
  refine congrArg _ (List.filter_congr fun q hq => ?_)
  simp [h.laneOf?_eq hq]

/-- **Nothing is lost and nothing comes twice**: the lanes hold the entities of the map. -/
theorem flatMap_laneEntities_perm (h : p.Spreads m n) :
    ((List.range n).flatMap p.laneEntities).Perm m.toList := by
  have hperm : ((List.range n).flatMap fun lane => p.placements.filter fun q => q.lane = lane).Perm
      p.placements :=
    flatMap_filter_perm_self List.nodup_range fun q hq => List.mem_range.mpr (h.lane_lt hq)
  have hlanes := (hperm.map Placement.entity).trans h.entities_perm
  rwa [List.map_flatMap] at hlanes

/-! ## 2. Times -/

/-- **A total is the time of its lane**, cut off once. -/
theorem getElem?_totals (h : p.Spreads m n) {lane : Nat} (hlane : lane < n) :
    p.totals[lane]? = some (.ofNat (totalTime (p.laneEntities lane))) := by
  have hload : laneLoad p.placements lane = .ofNat (totalTime (p.laneEntities lane)) := by
    refine Millis.ext ?_
    rw [val_laneLoad, totalTime, laneEntities, List.map_map]
    rfl
  rw [h.totals, List.getElem?_map, List.getElem?_range hlane, Option.map_some, hload]

/-- The totals are the exact times of the lanes, each cut off once. -/
theorem map_val_totals (h : p.Spreads m n) : p.totals.map Millis.val
    = (List.range n).map fun lane => min (laneTime p.placements lane) Millis.ceiling := by
  rw [h.totals, List.map_map]
  exact List.map_congr_left fun lane _ => val_laneLoad p.placements lane

/-- The lanes together hold the time of all entities. -/
theorem sumOf_laneTime (h : p.Spreads m n) :
    sumOf ((List.range n).map (laneTime p.placements)) = totalTime m.toList := by
  rw [sumOf_range_laneTime fun q hq => h.lane_lt hq, totalTime_perm h.entities_perm]

/-- **All totals together are the time of all entities**, cut off once. -/
theorem val_sum_totals (h : p.Spreads m n) :
    (Millis.sum p.totals).val = min (totalTime m.toList) Millis.ceiling := by
  rw [Millis.val_sum, h.map_val_totals, min_sumOf_map_min, h.sumOf_laneTime]

end Spreads

/-! ## 3. Partitions -/

/-- **Lanes share out the entities.**  For any entities and any number of lanes but zero there is a
partition.  It holds the entities of the map.  Exactly these have a lane, which is one of the `n`
lanes; the entities of a lane are those whose lane it is, and all lanes together hold the entities
of the map, each once.  There are `n` totals, each of which is the time of the entities of its lane,
cut off once; and the total of the statistics, if there are any, is the time of all entities, cut
off once. -/
theorem compute_shares_entities (m : EntityMap) {n : Nat} (hn : 0 < n) :
    ∃ p, compute m n = .ok p ∧
      p.entities.Perm m.toList ∧
      (∀ k, p.laneOf? k = none ↔ m.get? k = none) ∧
      (∀ k lane, p.laneOf? k = some lane → lane < n) ∧
      (∀ lane, p.laneEntities lane = p.entities.filter fun e => p.laneOf? e.key = some lane) ∧
      ((List.range n).flatMap p.laneEntities).Perm m.toList ∧
      p.totals.length = n ∧
      (∀ lane < n, p.totals[lane]? = some (.ofNat (totalTime (p.laneEntities lane)))) ∧
      ∀ s, p.stats = .ok s → s.total = min (totalTime m.toList) Millis.ceiling := by
  obtain ⟨p, hp, hspread⟩ := exists_compute m hn
  refine ⟨p, hp, hspread.entities_perm, hspread.laneOf?_eq_none_iff, fun k lane => hspread.laneOf?_lt,
    hspread.laneEntities_eq_filter, hspread.flatMap_laneEntities_perm, hspread.laneCount_eq,
    fun lane => hspread.getElem?_totals, fun s hs => ?_⟩
  rw [(of_stats_eq_ok hs).2, hspread.val_sum_totals]

/-- Three entities, two of which have more time than fits in 64 bits; one of them got it by
merging. -/
def overfull : EntityMap :=
  (((EntityMap.empty.put ⟨"a.LongTest", .ofNat 7, .testClass⟩).merge
    ⟨"a.LongTest", .ofNat (Nat.pow 2 64), .testClass⟩).put
    ⟨"a.LateTest", .ofNat (Nat.pow 2 64), .testClass⟩).put ⟨"a.QuickTest", .ofNat 3, .testClass⟩

/-- Two lanes share them out, and both totals are cut off. -/
theorem compute_shares_entities_overfull :
    overfull.size = 3 ∧ totalTime overfull.toList = 2 * Millis.ceiling + 3 ∧
      ∃ p, compute overfull 2 = .ok p ∧
        p.entities.Perm overfull.toList ∧
        (∀ k, p.laneOf? k = none ↔ overfull.get? k = none) ∧
        (∀ k lane, p.laneOf? k = some lane → lane < 2) ∧
        (∀ lane, p.laneEntities lane = p.entities.filter fun e => p.laneOf? e.key = some lane) ∧
        ((List.range 2).flatMap p.laneEntities).Perm overfull.toList ∧
        p.totals.length = 2 ∧
        (∀ lane < 2, p.totals[lane]? = some (.ofNat (totalTime (p.laneEntities lane)))) ∧
        ∀ s, p.stats = .ok s → s.total = min (totalTime overfull.toList) Millis.ceiling :=
  ⟨by decide, by decide, compute_shares_entities overfull (by decide)⟩

end TestLanes.Partition
