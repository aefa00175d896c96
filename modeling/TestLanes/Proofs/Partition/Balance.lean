import TestLanes.Proofs.Partition.Approximation
import TestLanes.Proofs.Partition.Statistics

/-!
# Lanes are balanced

Take any entity out of its lane, and the lane holds no more than any other.  When the entity was
placed, this was so because its lane was the lightest; later entities that go to the same lane are
shorter, and find it the lightest again (`Greedy.laneTime_le_add`).  So the lanes differ by no more
than the longest entity, and the heaviest one is above the average by less than that
(`Greedy.mul_laneTime_le`).

All this is about exact times, as long as those of all entities fit in 64 bits.  `compute_balanced`
says it of the totals and the statistics of a partition.
-/

namespace TestLanes

/-! ## 1. Greedy placing

The induction is over the placements, of which the last one made stands first.  For the lane of the
new entity the claim follows from its having been the lightest, and from the new entity being the
shortest so far; for any other lane the induction hypothesis is enough, since times of lanes only
grow.

The bound on the average adds up the bounds of all lanes, with the entity in question taken out of
its lane: there are `n` lanes none of which holds less than this one then does.
-/

/-- A lane has at least the time of each of its entities. -/
theorem time_le_laneTime {placed : List Placement} {p : Placement} (hp : p ∈ placed) :
    p.entity.time ≤ laneTime placed p.lane := by
  rw [laneTime_perm (List.perm_cons_erase hp), laneTime_cons, if_pos rfl]
  exact Nat.le_add_right _ _

/-- **Without one of its entities a lane is no heavier than the others.**  The last entity placed
stands first, so times grow along the list. -/
theorem Greedy.laneTime_le_add {n : Nat} {placed : List Placement} (hgreedy : Greedy n placed)
    (hfits : totalTime (placed.map Placement.entity) ≤ Millis.ceiling)
    (hsorted : placed.Pairwise fun p q => p.entity.time ≤ q.entity.time) :
    ∀ p ∈ placed, ∀ l < n, laneTime placed p.lane ≤ laneTime placed l + p.entity.time := by
  induction placed with
  | nil => exact fun p hp => absurd hp List.not_mem_nil
  | cons q placed ih =>
    obtain ⟨hfirst, hgreedy⟩ := hgreedy
    obtain ⟨hlight, hsorted⟩ := List.pairwise_cons.mp hsorted
    rw [List.map_cons, totalTime_cons] at hfits
    have hfits' : totalTime (placed.map Placement.entity) ≤ Millis.ceiling := by omega
    intro p hp l hl
    have hshort : q.entity.time ≤ p.entity.time := by
      rcases List.mem_cons.mp hp with rfl | hp
      · exact Nat.le_refl _
      · exact hlight p hp
    have hgrows : laneTime placed l ≤ laneTime (q :: placed) l := sumIn_le_cons _ _ q placed l
    by_cases hlane : q.lane = p.lane
    · -- the new entity has found this lane the lightest
      have hleast := hfirst.laneTime_le hfits' l hl
      rw [laneTime_cons, if_pos hlane, ← hlane]
      omega
    · have hplaced : p ∈ placed := (List.mem_cons.mp hp).resolve_left fun heq => hlane (heq ▸ rfl)
      have hbefore := ih hgreedy hfits' hsorted p hplaced l hl
      rw [laneTime_cons, if_neg hlane]
      omega

/-- **A lane is not far above the average**: the entities without one of its own fill all lanes at
least as far as this lane goes without it. -/
theorem Greedy.mul_laneTime_le {n : Nat} {placed : List Placement} (hgreedy : Greedy n placed)
    (hfits : totalTime (placed.map Placement.entity) ≤ Millis.ceiling)
    (hsorted : placed.Pairwise fun p q => p.entity.time ≤ q.entity.time) {p : Placement}
    (hp : p ∈ placed) : n * laneTime placed p.lane
      ≤ totalTime (placed.map Placement.entity) + (n - 1) * p.entity.time := by
  have hbalance := hgreedy.laneTime_le_add hfits hsorted p hp
  have hlane : p.lane < n := hgreedy.lane_lt p hp
  have hperm : placed.Perm (p :: placed.erase p) := List.perm_cons_erase hp
  have hlanes : laneTime placed = laneTime (p :: placed.erase p) := laneTime_perm hperm
  have htotal : totalTime (placed.map Placement.entity)
      = p.entity.time + totalTime ((placed.erase p).map Placement.entity) :=
    totalTime_perm (hperm.map Placement.entity)
  have hown : laneTime placed p.lane = p.entity.time + laneTime (placed.erase p) p.lane := by
    rw [hlanes, laneTime_cons, if_pos rfl]
  have hleast : ∀ l < n, laneTime (placed.erase p) p.lane ≤ laneTime (placed.erase p) l := by
    intro l hl
    by_cases heq : p.lane = l
    · exact heq ▸ Nat.le_refl _
    · have hle := hbalance l hl
      rw [hown, hlanes, laneTime_cons, if_neg heq] at hle
      omega
  have hrest := le_sumOf_range hleast
  rw [sumOf_range_laneTime fun q hq => hgreedy.lane_lt q (List.mem_of_mem_erase hq)] at hrest
  obtain ⟨k, rfl⟩ : ∃ k, n = k + 1 := ⟨n - 1, by omega⟩
  rw [hown, htotal, Nat.mul_add, Nat.add_sub_cancel, Nat.add_mul k, Nat.one_mul]
  omega

/-! ## 2. Partitions

The totals of a partition are the exact times of its lanes if nothing is cut off.  So the smallest
and the largest of them are times of lanes, and the second is zero or the time of a lane that has an
entity, which is what the first section asks for.
-/

/-- The longest time of some entities, zero if there are none. -/
def longest (es : List Entity) : Nat := (es.map Entity.time).max?.getD 0

theorem time_le_longest {es : List Entity} {e : Entity} (he : e ∈ es) : e.time ≤ longest es :=
  List.le_max?_getD_of_mem (List.mem_map_of_mem he)

namespace Partition

namespace Spreads

variable {p : Partition} {m : EntityMap} {n : Nat}

section Fits

variable (h : p.Spreads m n) (hfits : totalTime m.toList ≤ Millis.ceiling)
include h hfits

theorem totalTime_reverse_le :
    totalTime (p.placements.reverse.map Placement.entity) ≤ Millis.ceiling := by
  rw [List.map_reverse, totalTime_perm (List.reverse_perm _), totalTime_perm h.entities_perm]
  exact hfits

/-- The totals are the exact times of the lanes. -/
theorem totals_of_fits :
    p.totals.map Millis.val = (List.range n).map (laneTime p.placements) := by
  rw [h.map_val_totals]
  refine List.map_congr_left fun lane _ => Nat.min_eq_left ?_
  calc laneTime p.placements lane ≤ totalTime (p.placements.map Placement.entity) :=
        laneTime_le_totalTime p.placements lane
    _ = totalTime m.toList := totalTime_perm h.entities_perm
    _ ≤ Millis.ceiling := hfits

theorem val_eq_laneTime {lane : Nat} {t : Millis} (ht : p.totals[lane]? = some t) :
    lane < n ∧ t.val = laneTime p.placements lane := by
  have hlane : (p.totals.map Millis.val)[lane]? = some t.val := by
    rw [List.getElem?_map, ht, Option.map_some]
  rw [h.totals_of_fits hfits, List.getElem?_map, Option.map_eq_some_iff] at hlane
  obtain ⟨l, hl, htime⟩ := hlane
  obtain ⟨hlt, rfl⟩ := List.getElem?_eq_some_iff.mp hl
  rw [List.length_range] at hlt
  rw [List.getElem_range] at htime
  exact ⟨hlt, htime.symm⟩

/-- The smallest total is the time of a lane. -/
theorem exists_smallest_eq (hn : 0 < n) :
    ∃ l < n, smallest p.totals = laneTime p.placements l := by
  obtain ⟨t, ht, hsmallest⟩ := exists_smallest (h.totals_ne_nil hn)
  obtain ⟨l, hl⟩ := List.getElem?_of_mem ht
  obtain ⟨hlt, htime⟩ := h.val_eq_laneTime hfits hl
  exact ⟨l, hlt, hsmallest.trans htime⟩

/-- The largest total is the time of a lane with entities, if it is a time at all. -/
theorem largest_eq_zero_or_exists :
    largest p.totals = 0 ∨ ∃ q ∈ p.placements, largest p.totals = laneTime p.placements q.lane := by
  rcases largest_eq_zero_or p.totals with hzero | ⟨t, ht, hlargest⟩
  · exact Or.inl hzero
  · obtain ⟨l, hl⟩ := List.getElem?_of_mem ht
    obtain ⟨-, htime⟩ := h.val_eq_laneTime hfits hl
    rw [hlargest, htime]
    by_cases hlane : ∃ q ∈ p.placements, q.lane = l
    · obtain ⟨q, hq, rfl⟩ := hlane
      exact Or.inr ⟨q, hq, rfl⟩
    · -- nothing was placed in this lane
      have hnone : p.placements.filter (fun q => q.lane = l) = [] :=
        List.filter_eq_nil_iff.mpr fun q hq heq => hlane ⟨q, hq, of_decide_eq_true heq⟩
      exact Or.inl (by rw [laneTime, sumIn, hnone]; rfl)

/-- **Without one of its entities a lane is no heavier than the others.** -/
theorem laneTime_le_add {q : Placement} (hq : q ∈ p.placements) {l : Nat} (hl : l < n) :
    laneTime p.placements q.lane ≤ laneTime p.placements l + q.entity.time := by
  have hle := h.greedy.laneTime_le_add (h.totalTime_reverse_le hfits) h.pairwise_reverse q
    (List.mem_reverse.mpr hq) l hl
  rwa [laneTime_perm (List.reverse_perm _)] at hle

theorem mul_laneTime_le {q : Placement} (hq : q ∈ p.placements) :
    n * laneTime p.placements q.lane ≤ totalTime m.toList + (n - 1) * q.entity.time := by
  have hle := h.greedy.mul_laneTime_le (h.totalTime_reverse_le hfits) h.pairwise_reverse
    (List.mem_reverse.mpr hq)
  rwa [laneTime_perm (List.reverse_perm _), List.map_reverse,
    totalTime_perm (List.reverse_perm _), totalTime_perm h.entities_perm] at hle

/-!  The largest entity is at most `longest`, and with this in its place the bounds no longer speak
of one lane or one entity. -/

/-- **The lanes differ by no more than the longest entity.** -/
theorem largest_le_smallest_add (hn : 0 < n) :
    largest p.totals ≤ smallest p.totals + longest m.toList := by
  obtain ⟨l, hl, hsmallest⟩ := h.exists_smallest_eq hfits hn
  rcases h.largest_eq_zero_or_exists hfits with hzero | ⟨q, hq, hlargest⟩
  · exact hzero ▸ Nat.zero_le _
  · calc largest p.totals = laneTime p.placements q.lane := hlargest
      _ ≤ laneTime p.placements l + q.entity.time := h.laneTime_le_add hfits hq hl
      _ ≤ smallest p.totals + longest m.toList :=
        hsmallest ▸ Nat.add_le_add_left (time_le_longest (h.entity_mem hq)) _

/-- **The heaviest lane is above the average by less than the longest entity.** -/
theorem mul_largest_le :
    n * largest p.totals ≤ totalTime m.toList + (n - 1) * longest m.toList := by
  rcases h.largest_eq_zero_or_exists hfits with hzero | ⟨q, hq, hlargest⟩
  · exact hzero ▸ Nat.zero_le _
  · calc n * largest p.totals = n * laneTime p.placements q.lane := by rw [hlargest]
      _ ≤ totalTime m.toList + (n - 1) * q.entity.time := h.mul_laneTime_le hfits hq
      _ ≤ totalTime m.toList + (n - 1) * longest m.toList :=
        Nat.add_le_add_left (Nat.mul_le_mul_left _ (time_le_longest (h.entity_mem hq))) _

/-- The same about the average of the statistics, which is rounded down. -/
theorem largest_le_averageOf_add (hn : 0 < n) :
    largest p.totals ≤ averageOf p.totals + longest m.toList := by
  have hle := h.mul_largest_le hfits
  have haverage : averageOf p.totals = totalTime m.toList / n := by
    rw [h.averageOf_totals, Nat.min_eq_left hfits]
  have hrounded : totalTime m.toList < n * (totalTime m.toList / n) + n :=
    Nat.lt_mul_div_succ _ hn
  have hshare : (n - 1) * longest m.toList ≤ n * longest m.toList :=
    Nat.mul_le_mul_right _ (Nat.sub_le n 1)
  rw [haverage]
  refine Nat.le_of_lt_succ (Nat.lt_of_mul_lt_mul_left (a := n) ?_)
  rw [Nat.mul_succ, Nat.mul_add]
  omega

end Fits

end Spreads

/-- **Lanes are balanced**, if the times of all entities fit in 64 bits together.  Take any entity
out of its lane, and the lane holds no more than any other.  So the totals differ by no more than
the longest entity, and `n` times the largest is at most the time of all entities and `n - 1` times
the longest one.

This is stronger than a bound of four thirds of the average and the longest entity, which leaves
more room on `n` lanes and still holds with the average of the statistics, which is rounded down. -/
theorem compute_balanced {m : EntityMap} {n : Nat} (hn : 0 < n)
    (hfits : totalTime m.toList < 2 ^ 64) :
    ∃ p, compute m n = .ok p ∧ p.totals.length = n ∧
      (∀ (a b : Nat) (ta tb : Millis), p.totals[a]? = some ta → p.totals[b]? = some tb →
        ∀ e ∈ p.laneEntities a, e.time ≤ ta.val ∧ ta.val - e.time ≤ tb.val) ∧
      largest p.totals - smallest p.totals ≤ longest m.toList ∧
      n * largest p.totals ≤ totalTime m.toList + (n - 1) * longest m.toList ∧
      (0 < totalTime m.toList → 3 * (totalTime m.toList + (n - 1) * longest m.toList)
        < 4 * totalTime m.toList + 3 * n * longest m.toList) ∧
      ∃ s, p.stats = .ok s ∧ s.maximum ≤ s.average + longest m.toList ∧
        s.maximum ≤ 4 * s.average / 3 + longest m.toList := by
  obtain ⟨p, hp, hspread⟩ := exists_compute m hn
  have hceiling : totalTime m.toList ≤ Millis.ceiling := Nat.le_sub_one_of_lt hfits
  obtain ⟨s, hs⟩ := hspread.exists_stats_of_fits hn hceiling
  obtain ⟨-, haverage, hmaximum⟩ := measures_of_stats_eq_ok hs
  have hbound := hspread.largest_le_averageOf_add hceiling hn
  rw [← hmaximum, ← haverage] at hbound
  refine ⟨p, hp, hspread.laneCount_eq, fun a b ta tb ha hb e he => ?_, ?_,
    hspread.mul_largest_le hceiling, fun hpos => ?_, s, hs, hbound, by omega⟩
  · obtain ⟨q, hq, rfl⟩ := List.mem_map.mp he
    obtain ⟨hplaced, hlane⟩ := List.mem_filter.mp hq
    obtain rfl : q.lane = a := of_decide_eq_true hlane
    obtain ⟨-, hta⟩ := hspread.val_eq_laneTime hceiling ha
    obtain ⟨hb, htb⟩ := hspread.val_eq_laneTime hceiling hb
    rw [hta, htb]
    exact ⟨time_le_laneTime hplaced,
      Nat.sub_le_of_le_add (hspread.laneTime_le_add hceiling hplaced hb)⟩
  · exact Nat.sub_le_of_le_add
      (Nat.add_comm _ _ ▸ hspread.largest_le_smallest_add hceiling hn)
  · have hshare : (n - 1) * longest m.toList ≤ n * longest m.toList :=
      Nat.mul_le_mul_right _ (Nat.sub_le n 1)
    rw [Nat.mul_assoc]
    omega

/-- Two lanes of `fiveEntities` differ by no more than 3 ms, and neither takes more than 7 ms. -/
theorem compute_balanced_fiveEntities :
    0 < 2 ∧ totalTime fiveEntities.toList < 2 ^ 64 ∧
      totalTime fiveEntities.toList = 12 ∧ longest fiveEntities.toList = 3 ∧
      ∃ p, compute fiveEntities 2 = .ok p ∧ p.totals.length = 2 ∧
        (∀ (a b : Nat) (ta tb : Millis), p.totals[a]? = some ta → p.totals[b]? = some tb →
          ∀ e ∈ p.laneEntities a, e.time ≤ ta.val ∧ ta.val - e.time ≤ tb.val) ∧
        largest p.totals - smallest p.totals ≤ longest fiveEntities.toList ∧
        2 * largest p.totals
          ≤ totalTime fiveEntities.toList + (2 - 1) * longest fiveEntities.toList ∧
        (0 < totalTime fiveEntities.toList →
          3 * (totalTime fiveEntities.toList + (2 - 1) * longest fiveEntities.toList)
            < 4 * totalTime fiveEntities.toList + 3 * 2 * longest fiveEntities.toList) ∧
        ∃ s, p.stats = .ok s ∧ s.maximum ≤ s.average + longest fiveEntities.toList ∧
          s.maximum ≤ 4 * s.average / 3 + longest fiveEntities.toList :=
  ⟨by decide, by decide, by decide, by decide, compute_balanced (by decide) (by decide)⟩

end Partition

end TestLanes
