import Mathlib.Tactic.Ring
import TestLanes.Partition.Stats
import TestLanes.Proofs.Partition.Greedy

/-!
# The heaviest lane is within a third of the optimum

`n` lanes are compared with any other way `g` of putting the same entities in `n` lanes, none of
which then holds more than `w`.  Take an entity at the moment it is placed, with time `p`; it is the
lightest so far.

* If `3 * p ≤ w`, the lanes are so full on average that the lightest one has room for it up to the
  bound (`add_le_of_small`).
* If `w < 3 * p`, no lane of `g` holds more than two of the entities placed so far.  Count an entity
  twice if nothing fits beside it (`slotCost`): a lane of `g` has room for a count of two, whereas
  every lane that the new entity overfills has a count of two already, which leaves no place for the
  new one in `g` (`add_le_of_large`).

So no lane ever gets beyond the bound (`Greedy.laneTime_le`), and the heaviest does not at the end.
-/

namespace TestLanes

variable {α : Type}

/-! ## 1. Counting entities of which two fill a lane

Sums of sizes are compared with sums of counts, for any list of things with sizes.  Both lemmas go
by the number of things in the lane: none, one, two, or more.
-/

/-- The room that something of the size `d` takes up in a lane of the size `w`, where the smallest
thing has the size `p`: all of it, if nothing fits beside it, and half of it otherwise. -/
def slotCost (w p d : Nat) : Nat := if w < d + p then 2 else 1

theorem one_le_slotCost (w p d : Nat) : 1 ≤ slotCost w p d := by
  unfold slotCost
  split <;> omega

/-- A lane that the smallest thing overfills has no room left. -/
theorem two_le_slotCosts {w p : Nat} (hp : p ≤ w) {size : α → Nat} {xs : List α}
    (h : w < sumOf (xs.map size) + p) : 2 ≤ sumOf (xs.map fun x => slotCost w p (size x)) := by
  match xs, h with
  | [], h => simp only [List.map_nil, sumOf_nil] at h; omega
  | [x], h =>
    simp only [List.map_cons, List.map_nil, sumOf_cons, sumOf_nil, Nat.add_zero] at h ⊢
    exact Nat.le_of_eq (if_pos h).symm
  | x :: y :: xs, _ =>
    have hx := one_le_slotCost w p (size x)
    have hy := one_le_slotCost w p (size y)
    simp only [List.map_cons, sumOf_cons]
    omega

/-- What fits in a lane takes up no more than its room, if three things are too many. -/
theorem slotCosts_le_two {w p : Nat} (hw : w < 3 * p) {size : α → Nat} {xs : List α}
    (hp : ∀ x ∈ xs, p ≤ size x) (h : sumOf (xs.map size) ≤ w) :
    sumOf (xs.map fun x => slotCost w p (size x)) ≤ 2 := by
  match xs, hp, h with
  | [], _, _ => exact Nat.zero_le 2
  | [x], _, _ =>
    simp only [List.map_cons, List.map_nil, sumOf_cons, sumOf_nil, slotCost]
    split <;> omega
  | [x, y], hp, h =>
    -- neither of the two is one beside which nothing fits
    have hx := hp x (by simp)
    have hy := hp y (by simp)
    simp only [List.map_cons, List.map_nil, sumOf_cons, sumOf_nil] at h ⊢
    rw [slotCost, slotCost, if_neg (by omega), if_neg (by omega)]
  | x :: y :: z :: xs, hp, h =>
    have hx := hp x (by simp)
    have hy := hp y (by simp)
    have hz := hp z (by simp)
    simp only [List.map_cons, sumOf_cons] at h
    omega

/-! ## 2. Exact times

The rule compares loads that are cut off.  Nothing is cut off here, so it compares times.
-/

/-- A lane of a greedy placing holds no more than there is. -/
theorem laneTime_le_totalTime (placed : List Placement) (lane : Nat) :
    laneTime placed lane ≤ totalTime (placed.map Placement.entity) := by
  rw [totalTime, List.map_map]
  exact sumOf_sublist (List.filter_sublist.map _)

/-- As long as everything fits in 64 bits, the loads are exact. -/
theorem val_laneLoad_of_fits {placed : List Placement}
    (h : totalTime (placed.map Placement.entity) ≤ Millis.ceiling) (lane : Nat) :
    (laneLoad placed lane).val = laneTime placed lane := by
  rw [val_laneLoad]
  exact Nat.min_eq_left (Nat.le_trans (laneTime_le_totalTime placed lane) h)

/-- As long as everything fits in 64 bits, the lane that is taken has the least exact time. -/
theorem FirstLightest.laneTime_le {n lane : Nat} {placed : List Placement}
    (hfits : totalTime (placed.map Placement.entity) ≤ Millis.ceiling)
    (h : FirstLightest n placed lane) : ∀ l < n, laneTime placed lane ≤ laneTime placed l := by
  intro l hl
  have hle := Millis.le_def.mp (h.least l hl)
  rwa [val_laneLoad_of_fits hfits, val_laneLoad_of_fits hfits] at hle

/-! ## 3. One entity

The hypothesis on the other assignment is about the entities placed so far and the new one.  It is
weaker than the one on all entities, and it passes on to fewer of them (`Within.tail`).
-/

/-- The lanes of `g` hold no more than `w` each. -/
def Within (g : Entity → Nat) (n w : Nat) (es : List Entity) : Prop :=
  (∀ e ∈ es, g e < n) ∧ ∀ l < n, sumIn g Entity.time es l ≤ w

theorem Within.tail {g : Entity → Nat} {n w : Nat} {e : Entity} {es : List Entity}
    (h : Within g n w (e :: es)) : Within g n w es :=
  ⟨fun x hx => h.1 x (List.mem_cons_of_mem e hx),
    fun l hl => Nat.le_trans (sumIn_le_cons g Entity.time e es l) (h.2 l hl)⟩

/-- All lanes of `g` together hold everything. -/
theorem Within.totalTime_le {g : Entity → Nat} {n w : Nat} {es : List Entity}
    (h : Within g n w es) : totalTime es ≤ n * w := by
  rw [totalTime, ← sumOf_range_sumIn h.1 Entity.time]
  exact sumOf_range_le h.2

/-- No entity takes longer than its lane. -/
theorem Within.time_le {g : Entity → Nat} {n w : Nat} {e : Entity} {es : List Entity}
    (h : Within g n w (e :: es)) : e.time ≤ w := by
  have hlane := h.2 (g e) (h.1 e List.mem_cons_self)
  rw [sumIn_cons, if_pos rfl] at hlane
  omega

section Step

variable {n w : Nat} {g : Entity → Nat} {e : Entity} {placed : List Placement} {lane : Nat}

/-- **A small entity.**  The lightest lane holds no more than the average, and the average leaves
the room that the bound asks for. -/
theorem add_le_of_small (hin : ∀ p ∈ placed, p.lane < n) (hlane : lane < n)
    (hleast : ∀ l < n, laneTime placed lane ≤ laneTime placed l)
    (hg : Within g n w (e :: placed.map Placement.entity)) (hsmall : 3 * e.time ≤ w) :
    3 * n * (laneTime placed lane + e.time) ≤ (4 * n - 1) * w := by
  have havg : n * laneTime placed lane ≤ totalTime (placed.map Placement.entity) :=
    sumOf_range_laneTime hin ▸ le_sumOf_range hleast
  have htotal := hg.totalTime_le
  rw [totalTime_cons] at htotal
  obtain ⟨k, rfl⟩ : ∃ k, n = k + 1 := ⟨n - 1, by omega⟩
  have hk : k * (3 * e.time) ≤ k * w := Nat.mul_le_mul_left k hsmall
  calc 3 * (k + 1) * (laneTime placed lane + e.time)
      = 3 * ((k + 1) * laneTime placed lane) + 3 * e.time + k * (3 * e.time) := by ring
    _ ≤ 3 * ((k + 1) * w) + k * w := by omega
    _ = (4 * (k + 1) - 1) * w := by
        rw [show 4 * (k + 1) - 1 = 3 * (k + 1) + k by omega]
        ring

/-- **A large entity.**  If it overfilled the lightest lane it would overfill all of them, and then
`g` would have no room for it. -/
theorem add_le_of_large (hin : ∀ p ∈ placed, p.lane < n)
    (hleast : ∀ l < n, laneTime placed lane ≤ laneTime placed l)
    (hlight : ∀ p ∈ placed, e.time ≤ p.entity.time)
    (hg : Within g n w (e :: placed.map Placement.entity)) (hlarge : w < 3 * e.time) :
    laneTime placed lane + e.time ≤ w := by
  refine Nat.le_of_not_lt fun hover => ?_
  -- every lane of the placing is full
  have hfull : ∀ l < n, 2 ≤ sumIn Placement.lane (fun p => slotCost w e.time p.entity.time) placed l :=
    fun l hl => two_le_slotCosts hg.time_le (Nat.lt_of_lt_of_le hover
      (Nat.add_le_add_right (hleast l hl) e.time))
  -- no lane of the other assignment is more than full
  have hroom : ∀ l < n, sumIn g (fun x => slotCost w e.time x.time)
      (e :: placed.map Placement.entity) l ≤ 2 := by
    intro l hl
    refine slotCosts_le_two hlarge (fun x hx => ?_) (hg.2 l hl)
    rcases List.mem_cons.mp (List.mem_of_mem_filter hx) with rfl | hx
    · exact Nat.le_refl _
    · obtain ⟨p, hp, rfl⟩ := List.mem_map.mp hx
      exact hlight p hp
  have hplaced := le_sumOf_range hfull
  have hother := sumOf_range_le hroom
  rw [sumOf_range_sumIn hin] at hplaced
  rw [sumOf_range_sumIn hg.1, List.map_cons, sumOf_cons, List.map_map] at hother
  have hone := one_le_slotCost w e.time e.time
  have hsame : sumOf (placed.map ((fun x => slotCost w e.time x.time) ∘ Placement.entity))
      = sumOf (placed.map fun p => slotCost w e.time p.entity.time) := rfl
  omega

end Step

/-! ## 4. All entities -/

/-- **No lane gets beyond the bound** while entities are placed in the order of their times.  The
last one placed stands first, so times grow along the list. -/
theorem Greedy.laneTime_le {n w : Nat} {g : Entity → Nat} {placed : List Placement}
    (hgreedy : Greedy n placed)
    (hfits : totalTime (placed.map Placement.entity) ≤ Millis.ceiling)
    (hsorted : placed.Pairwise fun p q => p.entity.time ≤ q.entity.time)
    (hg : Within g n w (placed.map Placement.entity)) :
    ∀ l < n, 3 * n * laneTime placed l ≤ (4 * n - 1) * w := by
  induction placed with
  | nil => exact fun l _ => Nat.zero_le _
  | cons p placed ih =>
    obtain ⟨hfirst, hgreedy⟩ := hgreedy
    obtain ⟨hlight, hsorted⟩ := List.pairwise_cons.mp hsorted
    rw [List.map_cons, totalTime_cons] at hfits
    rw [List.map_cons] at hg
    have hfits' : totalTime (placed.map Placement.entity) ≤ Millis.ceiling := by omega
    have hleast := hfirst.laneTime_le hfits'
    have hin := hgreedy.lane_lt
    intro l hl
    have hbefore := ih hgreedy hfits' hsorted hg.tail l hl
    by_cases hpl : p.lane = l
    · subst hpl
      have htime : laneTime (p :: placed) p.lane = laneTime placed p.lane + p.entity.time := by
        rw [laneTime_cons, if_pos rfl, Nat.add_comm]
      rw [htime]
      by_cases hsmall : 3 * p.entity.time ≤ w
      · exact add_le_of_small hin hfirst.lt hleast hg hsmall
      · have hle := add_le_of_large hin hleast hlight hg (Nat.lt_of_not_le hsmall)
        exact Nat.mul_le_mul (by omega) hle
    · have htime : laneTime (p :: placed) l = laneTime placed l := by
        rw [laneTime, sumIn_cons, if_neg hpl]
        rfl
      rw [htime]
      exact hbefore

/-! ## 5. Partitions

With `w` the heaviest lane of the other assignment, the bound holds of every lane, and so of the
largest total.
-/

/-- The time of the heaviest of the first `n` lanes if `g` tells the lane of each entity. -/
def heaviestLane (g : Entity → Nat) (es : List Entity) (n : Nat) : Nat :=
  ((List.range n).map (sumIn g Entity.time es)).max?.getD 0

theorem sumIn_le_heaviestLane {g : Entity → Nat} {es : List Entity} {n l : Nat} (hl : l < n) :
    sumIn g Entity.time es l ≤ heaviestLane g es n :=
  List.le_max?_getD_of_mem (List.mem_map.mpr ⟨l, List.mem_range.mpr hl, rfl⟩)

namespace Partition

/-- The largest of some times is one of them, if there is any. -/
theorem largest_eq_zero_or (totals : List Millis) :
    largest totals = 0 ∨ ∃ t ∈ totals, largest totals = t.val := by
  rw [largest]
  cases hmax : (totals.map Millis.val).max? with
  | none => exact Or.inl rfl
  | some t =>
    obtain ⟨u, hu, rfl⟩ := List.mem_map.mp (List.max?_mem hmax)
    exact Or.inr ⟨u, hu, rfl⟩

/-- Along the placements the last one of which stands first, times grow. -/
theorem Spreads.pairwise_reverse {p : Partition} {m : EntityMap} {n : Nat} (h : p.Spreads m n) :
    p.placements.reverse.Pairwise fun a b => a.entity.time ≤ b.entity.time :=
  List.pairwise_reverse.mpr (List.pairwise_map.mp (h.entities ▸ pairwise_heaviestFirst m))

/-- **The heaviest lane is within a third of the optimum.**  Whatever other way there is to put the
entities in `n` lanes, the heaviest lane of the partition takes at most `4/3 - 1/(3 * n)` times as
long as the heaviest lane of that one. -/
theorem largest_totals_le {m : EntityMap} {n : Nat} (hn : 0 < n)
    (hfits : totalTime m.toList < 2 ^ 64) (g : Entity → Nat) (hg : ∀ e ∈ m.toList, g e < n) :
    ∃ p, compute m n = .ok p ∧
      3 * n * largest p.totals ≤ (4 * n - 1) * heaviestLane g m.toList n := by
  obtain ⟨p, hp, hspread⟩ := exists_compute m hn
  refine ⟨p, hp, ?_⟩
  have hperm : (p.placements.reverse.map Placement.entity).Perm m.toList :=
    ((List.reverse_perm p.placements).map Placement.entity).trans hspread.entities_perm
  have hwithin : Within g n (heaviestLane g m.toList n)
      (p.placements.reverse.map Placement.entity) :=
    ⟨fun e he => hg e (hperm.mem_iff.mp he),
      fun l hl => sumIn_perm g Entity.time hperm l ▸ sumIn_le_heaviestLane hl⟩
  have hceiling : totalTime (p.placements.reverse.map Placement.entity) ≤ Millis.ceiling := by
    rw [totalTime, sumOf_perm (hperm.map Entity.time)]
    exact Nat.le_sub_one_of_lt hfits
  have hbound := hspread.greedy.laneTime_le hceiling hspread.pairwise_reverse hwithin
  rcases largest_eq_zero_or p.totals with hzero | ⟨t, ht, hlargest⟩
  · rw [hzero]
    exact Nat.zero_le _
  · rw [hspread.totals] at ht
    obtain ⟨l, hl, rfl⟩ := List.mem_map.mp ht
    rw [hlargest, ← laneLoad_perm (List.reverse_perm p.placements), val_laneLoad_of_fits hceiling]
    exact hbound l (List.mem_range.mp hl)

def fiveEntities : EntityMap :=
  .ofList [⟨"a", .ofNat 3, .testCase⟩, ⟨"b", .ofNat 3, .testCase⟩, ⟨"c", .ofNat 2, .testCase⟩,
    ⟨"d", .ofNat 2, .testCase⟩, ⟨"e", .ofNat 2, .testCase⟩]

/-- They fit in two lanes of 6 ms, the longer ones in the first. -/
theorem largest_totals_le_fiveEntities :
    totalTime fiveEntities.toList < 2 ^ 64 ∧
      heaviestLane (fun e => if e.key < "c" then 0 else 1) fiveEntities.toList 2 = 6 ∧
      ∃ p, compute fiveEntities 2 = .ok p ∧
        3 * 2 * largest p.totals
          ≤ (4 * 2 - 1) * heaviestLane (fun e => if e.key < "c" then 0 else 1)
              fiveEntities.toList 2 :=
  ⟨by decide, by decide,
    largest_totals_le (by decide) (by decide) (fun e => if e.key < "c" then 0 else 1) (by decide)⟩

end Partition

end TestLanes
