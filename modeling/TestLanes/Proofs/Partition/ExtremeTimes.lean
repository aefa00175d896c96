import TestLanes.Proofs.Granularity.Time
import TestLanes.Proofs.Partition.Statistics

/-!
# Extreme times

A report may give any times, and where they do not fit any more they are cut off: a time that is
read, the time of an entity, the total of a lane.  `statistics_of_cases` follows cases from their
tree to the statistics of the lanes, and says where this is not so.

* The time of a class is added up exactly, and it has no value from 2^64 seconds on.
  This is the only way in which entities are not made (`Granularity.exists_extract_iff`).
* The squares of the deviations are added up in 128 bits.  How full the lanes may be for the sum to
  fit is told where statistics are (`Partition.exists_stats`, `Partition.stats_eq_error`).

`statistics_fail_heavyCases` has the cases: up to three classes with one case of the longest 64-bit
time each, and a class of 1001 such cases.
-/

namespace TestLanes

open Report (Case ClassesFit Tree caseTime classOf)

/-- A class of at most a thousand cases has a time, if each case fits below the ceiling. -/
theorem Report.classesFit_of_length_le {cs : List Case}
    (h : ∀ c ∈ cs, c.duration.val ≤ Millis.ceiling ∧ (classOf cs c.owner).cases.length ≤ 1000) :
    ClassesFit cs := by
  intro c hc
  have hcases : ∀ c' ∈ (classOf cs c.owner).cases, c'.duration.val ≤ Millis.ceiling :=
    fun c' hc' => (h c' (List.mem_of_mem_filter hc')).1
  have htime : (classOf cs c.owner).time ≤ 1000 * Millis.ceiling :=
    calc (classOf cs c.owner).time
        ≤ sumOf ((classOf cs c.owner).cases.map fun _ => Millis.ceiling) := sumOf_map_le hcases
      _ = (classOf cs c.owner).cases.length * Millis.ceiling := sumOf_map_const _ _
      _ ≤ 1000 * Millis.ceiling := Nat.mul_le_mul_right _ (h c hc).2
  have hword : Text.wordBound = Millis.ceiling + 1 := by decide
  omega

namespace Granularity

/-- Exactly a class whose time has no value stands in the way of entities. -/
theorem exists_extract_iff (g : Granularity) (name : String) (cs : List Case) :
    (∃ m, g.extract (Tree.ofCases name cs) = .ok m) ↔ (g = .testClass → ClassesFit cs) := by
  rw [extract_ofCases]
  split
  · rename_i hover
    exact iff_of_false (fun ⟨m, hm⟩ => nomatch hm) fun h => hover.2 (h hover.1)
  · rename_i hfits
    exact iff_of_true ⟨_, rfl⟩ fun hg => not_not.mp fun hover => hfits ⟨hg, hover⟩

/-- Entities have no more time than the cases that they stand for. -/
theorem totalTime_extract_le {g : Granularity} {name : String} {cs : List Case} {m : EntityMap}
    (h : g.extract (Tree.ofCases name cs) = .ok m) : totalTime m.toList ≤ caseTime cs := by
  rw [extract_ofCases] at h
  split at h
  · exact nomatch h
  · cases h
    refine Nat.le_trans (EntityMap.totalTime_gather_le _) ?_
    rw [totalTime, List.map_map]
    exact sumOf_map_le fun c _ => Nat.min_le_left _ _

end Granularity

namespace Partition

/-- **What becomes of extreme times.**  Whatever the cases, their tree has entities unless it is to
be taken apart by classes and one of them has 2^64 seconds or more, which takes more than a thousand
cases of 64-bit times.  The entities are always spread over the lanes.

Statistics of the lanes are made if there are one or two lanes, if the time of all cases fits in 64
bits, or if the `n` lanes together hold no more than `(n - 1) / (n - 2)` of that.  They are not made
if two of four or more lanes are at the ceiling, or three.

The average is never above the maximum.  It is not below the minimum either if the time of all cases
fits in 64 bits, and in general exactly if `n` times the minimum does. -/
theorem statistics_of_cases (cs : List Case) (g : Granularity) (name : String) {n : Nat}
    (hn : 0 < n) :
    ((∃ m, g.extract (Tree.ofCases name cs) = .ok m) ↔ (g = .testClass → ClassesFit cs)) ∧
    ((∀ c ∈ cs, c.duration.val ≤ Millis.ceiling ∧ (classOf cs c.owner).cases.length ≤ 1000) →
      ClassesFit cs) ∧
    ∀ m, g.extract (Tree.ofCases name cs) = .ok m → ∃ p, compute m n = .ok p ∧
      (n ≤ 2 ∨ caseTime cs < 2 ^ 64 ∨ (n - 2) * timeOf p.totals ≤ (n - 1) * Millis.ceiling →
        ∃ s, p.stats = .ok s) ∧
      (2 ≤ fullLanes p.totals ∧ 4 ≤ n ∨ 3 ≤ fullLanes p.totals →
        p.stats = .error .sumTooLarge) ∧
      ∀ s, p.stats = .ok s → s.average ≤ s.maximum ∧
        (caseTime cs < 2 ^ 64 → s.minimum ≤ s.average) ∧
        (s.minimum ≤ s.average ↔ n * s.minimum ≤ Millis.ceiling) := by
  refine ⟨g.exists_extract_iff name cs, Report.classesFit_of_length_le, fun m hm => ?_⟩
  obtain ⟨p, hp, hspread⟩ := exists_compute m hn
  have hlanes : p.laneCount = n := hspread.laneCount_eq
  have hne : p.totals ≠ [] := hspread.totals_ne_nil hn
  have htime : totalTime m.toList ≤ caseTime cs := Granularity.totalTime_extract_le hm
  refine ⟨p, hp, fun hsafe => ?_, fun hfull => stats_eq_error (hlanes ▸ hfull), fun s hs => ?_⟩
  · rcases hsafe with htwo | hfits | hroom
    · refine exists_stats hne ?_
      rw [hlanes, Nat.sub_eq_zero_of_le htwo, Nat.zero_mul]
      exact Nat.zero_le _
    · exact hspread.exists_stats_of_fits hn (Nat.le_trans htime (Nat.le_sub_one_of_lt hfits))
    · exact exists_stats hne (hlanes ▸ hroom)
  · have hiff := minimum_le_average_iff hne hs
    refine ⟨average_le_maximum hs, fun hfits => hiff.mpr ?_, hlanes ▸ hiff⟩
    calc p.laneCount * s.minimum
        = p.totals.length * smallest p.totals := by rw [(measures_of_stats_eq_ok hs).1, laneCount]
      _ ≤ timeOf p.totals := length_mul_smallest_le p.totals
      _ ≤ totalTime m.toList := hspread.timeOf_totals_le
      _ ≤ caseTime cs := htime
      _ ≤ Millis.ceiling := Nat.le_sub_one_of_lt hfits

def heavyCase (className : String) : Case :=
  { className, name := "run", duration := .ofNat Millis.ceiling }

def heavyCases (n : Nat) : List Case := (["a.A", "a.B", "a.C"].take n).map heavyCase

/-- Two of them on two lanes still have statistics. -/
theorem statistics_of_cases_heavyCases :
    0 < 2 ∧ ClassesFit (heavyCases 2) ∧
    ((∃ m, Granularity.extract .testClass (Tree.ofCases "run" (heavyCases 2)) = .ok m) ↔
      (Granularity.testClass = .testClass → ClassesFit (heavyCases 2))) ∧
    ((∀ c ∈ heavyCases 2, c.duration.val ≤ Millis.ceiling ∧
        (classOf (heavyCases 2) c.owner).cases.length ≤ 1000) →
      ClassesFit (heavyCases 2)) ∧
    ∀ m, Granularity.extract .testClass (Tree.ofCases "run" (heavyCases 2)) = .ok m →
      ∃ p, compute m 2 = .ok p ∧
        (2 ≤ 2 ∨ caseTime (heavyCases 2) < 2 ^ 64 ∨
            (2 - 2) * timeOf p.totals ≤ (2 - 1) * Millis.ceiling →
          ∃ s, p.stats = .ok s) ∧
        (2 ≤ fullLanes p.totals ∧ 4 ≤ 2 ∨ 3 ≤ fullLanes p.totals →
          p.stats = .error .sumTooLarge) ∧
        ∀ s, p.stats = .ok s → s.average ≤ s.maximum ∧
          (caseTime (heavyCases 2) < 2 ^ 64 → s.minimum ≤ s.average) ∧
          (s.minimum ≤ s.average ↔ 2 * s.minimum ≤ Millis.ceiling) :=
  ⟨by decide, by decide, statistics_of_cases (heavyCases 2) .testClass "run" (by decide)⟩

/-!  What becomes of these cases.  The partitions are written down, as the sorting in `compute` is
not evaluated: the entities and the lanes are in order already (`compute_of_pairwise`). -/

/-- The first `n` of their classes, each on a lane of its own. -/
def heavyPartition (n : Nat) : Partition where
  placements := (["a.A", "a.B", "a.C"].take n).mapIdx fun lane key =>
    ⟨⟨key, .ofNat Millis.ceiling, .testClass⟩, lane⟩
  totals := List.replicate n (.ofNat Millis.ceiling)

/-- The entities of the first `n` cases. -/
def heavyEntities (n : Nat) : EntityMap :=
  .gather ((heavyCases n).map (Granularity.entityOf .testClass))

theorem extract_heavyCases {n : Nat} (h : ClassesFit (heavyCases n)) :
    Granularity.extract .testClass (Tree.ofCases "run" (heavyCases n))
      = .ok (heavyEntities n) :=
  (Granularity.extract_ofCases _ _ _).trans (if_neg fun hover => hover.2 h)

theorem compute_heavyEntities_two : compute (heavyEntities 2) 2 = .ok (heavyPartition 2) :=
  compute_of_pairwise
    (s := ⟨(List.range 2).map fun lane => ⟨.ofNat Millis.ceiling, lane⟩,
      (heavyPartition 2).placements.reverse⟩) (by decide) (by decide) (by decide) (by decide)

theorem compute_heavyEntities_three : compute (heavyEntities 3) 3 = .ok (heavyPartition 3) :=
  compute_of_pairwise
    (s := ⟨(List.range 3).map fun lane => ⟨.ofNat Millis.ceiling, lane⟩,
      (heavyPartition 3).placements.reverse⟩) (by decide) (by decide) (by decide) (by decide)

/-- A class of one case more than a thousand. -/
theorem not_classesFit_replicate : ¬ ClassesFit (List.replicate 1001 (heavyCase "a.A")) := by
  intro hfits
  have hclass : (classOf (List.replicate 1001 (heavyCase "a.A")) (heavyCase "a.A").owner).cases
      = List.replicate 1001 (heavyCase "a.A") :=
    List.filter_eq_self.mpr fun c hc => by rw [List.eq_of_mem_replicate hc]; exact decide_eq_true rfl
  have htime : (classOf (List.replicate 1001 (heavyCase "a.A")) (heavyCase "a.A").owner).time
      = 1001 * Millis.ceiling := by
    rw [Report.ClassResult.time, hclass, List.map_replicate, sumOf_eq_sum, List.sum_replicate_nat]
    decide
  have hshort := hfits (heavyCase "a.A") (List.mem_replicate.mpr ⟨by decide, rfl⟩)
  rw [htime] at hshort
  exact absurd hshort (by decide)

/-- **Times that make statistics fail.**  Every case has a 64-bit time.  Three of them on three
lanes have no statistics; two of them on two lanes have an average below the minimum; and a class of
1001 of them has no time. -/
theorem statistics_fail_heavyCases :
    (∀ c ∈ heavyCases 3, c.duration.val ≤ Millis.ceiling) ∧
    (∃ m p, Granularity.extract .testClass (Tree.ofCases "run" (heavyCases 3)) = .ok m ∧
      compute m 3 = .ok p ∧ p.stats = .error .sumTooLarge) ∧
    (∃ m p s, Granularity.extract .testClass (Tree.ofCases "run" (heavyCases 2)) = .ok m ∧
      compute m 2 = .ok p ∧ p.stats = .ok s ∧ s.average < s.minimum) ∧
    Granularity.extract .testClass
      (Tree.ofCases "run" (List.replicate 1001 (heavyCase "a.A"))) = .error .overflow := by
  refine ⟨by decide, ⟨_, _, extract_heavyCases (by decide), compute_heavyEntities_three,
    stats_eq_error (Or.inr (by decide))⟩, ?_, ?_⟩
  · have hne : (heavyPartition 2).totals ≠ [] := by decide
    obtain ⟨s, hs⟩ := exists_stats hne (by decide)
    have hminimum : s.minimum = Millis.ceiling := (measures_of_stats_eq_ok hs).1.trans (by decide)
    refine ⟨_, _, s, extract_heavyCases (by decide), compute_heavyEntities_two, hs, ?_⟩
    refine Nat.lt_of_not_le fun hle => ?_
    have htwice := (minimum_le_average_iff hne hs).mp hle
    rw [hminimum] at htwice
    exact absurd htwice (by decide)
  · rw [Granularity.extract_ofCases, if_pos ⟨rfl, not_classesFit_replicate⟩]

end Partition

end TestLanes
