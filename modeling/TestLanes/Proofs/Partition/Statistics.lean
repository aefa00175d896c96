import Mathlib.Tactic.Linarith
import Mathlib.Tactic.Ring
import TestLanes.Proofs.Partition.Shares

/-!
# When statistics can be made

Totals of lanes are cut off at the ceiling, and so is their sum, of which the average is a part.  So
the average of lanes that are cut off may lie far below all of them, and the squares of the
deviations may exceed 128 bits.

* With `n` lanes whose totals add up to `x` the squares fit as long as
  `(n - 2) * x ≤ (n - 1) * ceiling` (`exists_stats`), which two lanes cannot break.  They do not fit
  with two lanes at the ceiling of four or more, or three (`stats_eq_error`).
* The average is never above the largest total (`average_le_maximum`), but it is below the smallest
  one unless this fits `n` times under the ceiling (`minimum_le_average_iff`).
-/

namespace TestLanes

/-- One more than the ceiling, squared, is one more than 128 bits hold. -/
theorem Millis.ceiling_succ_sq : (Millis.ceiling + 1) * (Millis.ceiling + 1) = Nat.pow 2 128 := by
  decide

namespace Partition

/-! ## 1. The smallest and the largest total

Both are zero if there are no lanes.  The sum of the totals lies between `n` times the one and `n`
times the other.
-/

theorem le_largest {totals : List Millis} {t : Millis} (ht : t ∈ totals) :
    t.val ≤ largest totals :=
  List.le_max?_getD_of_mem (List.mem_map_of_mem ht)

theorem smallest_le {totals : List Millis} {t : Millis} (ht : t ∈ totals) :
    smallest totals ≤ t.val :=
  List.min?_getD_le_of_mem (List.mem_map_of_mem ht)

/-- The smallest of some times is one of them. -/
theorem exists_smallest {totals : List Millis} (h : totals ≠ []) :
    ∃ t ∈ totals, smallest totals = t.val := by
  rw [smallest]
  cases hmin : (totals.map Millis.val).min? with
  | none => exact absurd (List.map_eq_nil_iff.mp (List.min?_eq_none_iff.mp hmin)) h
  | some t =>
    obtain ⟨u, hu, rfl⟩ := List.mem_map.mp (List.min?_mem hmin)
    exact ⟨u, hu, rfl⟩

/-- The exact sum of some times. -/
def timeOf (totals : List Millis) : Nat := sumOf (totals.map Millis.val)

theorem length_mul_smallest_le (totals : List Millis) :
    totals.length * smallest totals ≤ timeOf totals := by
  rw [← sumOf_map_const, timeOf]
  exact sumOf_map_le fun t ht => smallest_le ht

theorem timeOf_le_length_mul_largest (totals : List Millis) :
    timeOf totals ≤ totals.length * largest totals := by
  rw [← sumOf_map_const, timeOf]
  exact sumOf_map_le fun t ht => le_largest ht

/-! ## 2. The sum of the squares

The square of a deviation is written without a subtraction, with the mixed term on the other side.
So it adds up over the totals, by induction, and the bounds follow in natural numbers.
-/

theorem sq_deviation (t a : Nat) :
    Nat.pow (max t a - min t a) 2 + 2 * a * t = t * t + a * a := by
  rcases Nat.le_total a t with h | h <;> obtain ⟨d, rfl⟩ := Nat.exists_eq_add_of_le h
  · rw [Nat.max_eq_left h, Nat.min_eq_right h, Nat.add_sub_cancel_left, Nat.pow_eq]
    ring
  · rw [Nat.max_eq_right h, Nat.min_eq_left h, Nat.add_sub_cancel_left, Nat.pow_eq]
    ring

/-- The squares of the deviations, told by the squares of the totals. -/
theorem squaredDeviations_add (totals : List Millis) (a : Nat) :
    squaredDeviations totals a + 2 * a * timeOf totals
      = sumOf (totals.map fun t => t.val * t.val) + totals.length * (a * a) := by
  unfold squaredDeviations timeOf
  induction totals with
  | nil => simp
  | cons t ts ih =>
    have ht := sq_deviation t.val a
    simp only [List.map_cons, sumOf_cons, List.length_cons, Nat.mul_add, Nat.add_mul] at ih ht ⊢
    omega

/-- No total is beyond the ceiling. -/
theorem sumOf_squares_le (totals : List Millis) :
    sumOf (totals.map fun t => t.val * t.val) ≤ Millis.ceiling * timeOf totals := by
  unfold timeOf
  induction totals with
  | nil => simp
  | cons t ts ih =>
    have ht : t.val * t.val ≤ Millis.ceiling * t.val := Nat.mul_le_mul_right _ t.val_le
    simp only [List.map_cons, sumOf_cons, Nat.mul_add]
    omega

theorem squaredDeviations_add_le (totals : List Millis) (a : Nat) :
    squaredDeviations totals a + 2 * a * timeOf totals
      ≤ Millis.ceiling * timeOf totals + totals.length * (a * a) := by
  rw [squaredDeviations_add]
  exact Nat.add_le_add_right (sumOf_squares_le totals) _

/-! ## 3. Squares that fit

The bounds are about four numbers: `c` is the ceiling, `x` the sum of the totals, `a` the average
and `n` the number of lanes.  There are three cases, by whether the sum is cut off and, if so,
whether there are more than two lanes.
-/

/-- If the sum is not cut off, `n` times the average is no more than the sum. -/
theorem lt_sq_of_le {c x a n squares : Nat} (hx : x ≤ c) (ha : n * a ≤ x)
    (h : squares + 2 * a * x ≤ c * x + n * (a * a)) : squares < (c + 1) * (c + 1) := by
  have hsquare : n * (a * a) ≤ x * a := by
    rw [← Nat.mul_assoc]
    exact Nat.mul_le_mul_right a ha
  have hcx : c * x ≤ c * c := Nat.mul_le_mul_left c hx
  nlinarith

/-- If the sum is cut off at `c`, the average lies between `c / n - 1` and `c / n`.  Of two lanes it
is half of what one lane can hold. -/
theorem lt_sq_of_two {c x a squares : Nat} (hx : x ≤ 2 * c) (ha : 2 * a ≤ c) (hc : c ≤ 2 * a + 1)
    (h : squares + 2 * a * x ≤ c * x + 2 * (a * a)) : squares < (c + 1) * (c + 1) := by
  have hexcess : c * x ≤ 2 * a * x + x := by
    have := Nat.mul_le_mul_right x hc
    linarith
  have hsquare : 2 * (a * a) ≤ c * a := by
    rw [← Nat.mul_assoc]
    exact Nat.mul_le_mul_right a ha
  nlinarith

/-- Of more lanes it is so low that the bound on the sum is needed. -/
theorem lt_sq_of_more {c x a k squares : Nat} (hk : 0 < k) (hx : k * x ≤ (k + 1) * c)
    (ha : (k + 2) * a ≤ c) (hc : c ≤ (k + 2) * a + (k + 1))
    (h : squares + 2 * a * x ≤ c * x + (k + 2) * (a * a)) : squares < (c + 1) * (c + 1) := by
  obtain ⟨b, rfl⟩ : ∃ b, c = 2 * a + b := Nat.exists_eq_add_of_le (by nlinarith)
  have hsquares : squares ≤ b * x + (k + 2) * (a * a) := by linarith
  have hscaled : k * squares ≤ (2 * a + b) * ((k + 1) * b + k * a) :=
    calc k * squares
        ≤ b * (k * x) + k * a * ((k + 2) * a) := by nlinarith
      _ ≤ b * ((k + 1) * (2 * a + b)) + k * a * (2 * a + b) :=
        Nat.add_le_add (Nat.mul_le_mul_left b hx) (Nat.mul_le_mul_left (k * a) ha)
      _ = (2 * a + b) * ((k + 1) * b + k * a) := by ring
  have hlow : (k + 1) * b + k * a ≤ k * (2 * a + b) + k + 1 := by nlinarith
  refine Nat.lt_of_mul_lt_mul_left (a := k) ?_
  calc k * squares ≤ (2 * a + b) * ((k + 1) * b + k * a) := hscaled
    _ ≤ (2 * a + b) * (k * (2 * a + b) + k + 1) := Nat.mul_le_mul_left _ hlow
    _ < k * ((2 * a + b + 1) * (2 * a + b + 1)) := by nlinarith

/-- Together: `n` lanes that hold no more than `c` each and `x` in all. -/
theorem lt_sq_of_room {c x n squares : Nat} (hn : 0 < n) (hfull : x ≤ n * c)
    (hroom : (n - 2) * x ≤ (n - 1) * c)
    (h : squares + 2 * (min x c / n) * x ≤ c * x + n * (min x c / n * (min x c / n))) :
    squares < (c + 1) * (c + 1) := by
  have hlow : n * (min x c / n) ≤ min x c := Nat.mul_div_le _ _
  have hhigh : min x c < n * (min x c / n) + n := Nat.lt_mul_div_succ _ hn
  rcases Nat.le_total x c with hfits | hover
  · rw [Nat.min_eq_left hfits] at hlow h
    exact lt_sq_of_le hfits hlow h
  · rw [Nat.min_eq_right hover] at hlow hhigh h
    match n, hn, hfull, hroom with
    | 1, _, hfull, _ =>
      -- one lane alone is not cut off a second time
      obtain rfl : x = c := by omega
      exact lt_sq_of_le (Nat.le_refl x) hlow h
    | 2, _, hfull, _ => exact lt_sq_of_two hfull hlow (by omega) h
    | k + 3, _, _, hroom => exact lt_sq_of_more (Nat.succ_pos k) hroom hlow (Nat.le_of_lt_succ hhigh) h

/-- The average, told by the exact sum of the totals. -/
def averageOf (totals : List Millis) : Nat := min (timeOf totals) Millis.ceiling / totals.length

/-- **The squares fit in 128 bits** as long as the lanes are not too full. -/
theorem squaredDeviations_lt {totals : List Millis} (hne : totals ≠ [])
    (hroom : (totals.length - 2) * timeOf totals ≤ (totals.length - 1) * Millis.ceiling) :
    squaredDeviations totals (averageOf totals) < Nat.pow 2 128 := by
  have hfull : timeOf totals ≤ totals.length * Millis.ceiling := by
    rw [← sumOf_map_const, timeOf]
    exact sumOf_map_le fun t _ => t.val_le
  rw [← Millis.ceiling_succ_sq]
  exact lt_sq_of_room (List.length_pos_iff.mpr hne) hfull hroom
    (squaredDeviations_add_le totals (averageOf totals))

/-! ## 4. Squares that do not fit

The average is at most the ceiling divided by the number of lanes.  A lane at the ceiling is
therefore far from it, and two or three of them are enough.
-/

/-- The number of lanes at the ceiling. -/
def fullLanes (totals : List Millis) : Nat :=
  (totals.filter fun t => t.val = Millis.ceiling).length

/-- Each lane at the ceiling adds its distance from the average, squared. -/
theorem fullLanes_mul_le {totals : List Millis} {a : Nat} (ha : a ≤ Millis.ceiling) :
    fullLanes totals * Nat.pow (Millis.ceiling - a) 2 ≤ squaredDeviations totals a := by
  have hfull : (totals.filter fun t => t.val = Millis.ceiling).map
      (fun t => Nat.pow (max t.val a - min t.val a) 2)
        = (totals.filter fun t => t.val = Millis.ceiling).map
            fun _ => Nat.pow (Millis.ceiling - a) 2 := by
    refine List.map_congr_left fun t ht => ?_
    rw [of_decide_eq_true (List.mem_filter.mp ht).2, Nat.max_eq_left ha, Nat.min_eq_right ha]
  rw [fullLanes, ← sumOf_map_const, ← hfull]
  exact sumOf_sublist (List.filter_sublist.map _)

/-- A distance of three quarters of the ceiling, squared, is more than half of what 128 bits
hold. -/
theorem pow_le_of_quarter {a : Nat} (h : 4 * a ≤ Millis.ceiling) :
    Nat.pow 2 128 ≤ 2 * Nat.pow (Millis.ceiling - a) 2 := by
  have hfar : 3 * Nat.pow 2 62 - 1 ≤ Millis.ceiling - a := by
    have hceiling : Millis.ceiling = 4 * Nat.pow 2 62 - 1 := by decide
    omega
  have hsquare := Nat.mul_le_mul_left 2 (Nat.pow_le_pow_left hfar 2)
  exact Nat.le_trans (by decide) hsquare

/-- A distance of two thirds of the ceiling, squared, is more than a third of it. -/
theorem pow_le_of_third {a : Nat} (h : 3 * a ≤ Millis.ceiling) :
    Nat.pow 2 128 ≤ 3 * Nat.pow (Millis.ceiling - a) 2 := by
  have hfar : 5 * Nat.pow 2 61 ≤ Millis.ceiling - a := by
    have hceiling : Millis.ceiling = 8 * Nat.pow 2 61 - 1 := by decide
    omega
  have hsquare := Nat.mul_le_mul_left 3 (Nat.pow_le_pow_left hfar 2)
  exact Nat.le_trans (by decide) hsquare

/-- **The squares exceed 128 bits** with two lanes at the ceiling of four or more, and with three of
three or more. -/
theorem le_squaredDeviations {totals : List Millis}
    (h : 2 ≤ fullLanes totals ∧ 4 ≤ totals.length ∨ 3 ≤ fullLanes totals) :
    Nat.pow 2 128 ≤ squaredDeviations totals (averageOf totals) := by
  have hlow : totals.length * averageOf totals ≤ Millis.ceiling :=
    Nat.le_trans (Nat.mul_div_le _ _) (Nat.min_le_right _ _)
  rcases h with ⟨htwo, hfour⟩ | hthree
  · have ha : 4 * averageOf totals ≤ Millis.ceiling :=
      Nat.le_trans (Nat.mul_le_mul_right _ hfour) hlow
    calc Nat.pow 2 128 ≤ 2 * Nat.pow (Millis.ceiling - averageOf totals) 2 := pow_le_of_quarter ha
      _ ≤ fullLanes totals * Nat.pow (Millis.ceiling - averageOf totals) 2 :=
        Nat.mul_le_mul_right _ htwo
      _ ≤ squaredDeviations totals (averageOf totals) := fullLanes_mul_le (by omega)
  · have hlength : 3 ≤ totals.length := Nat.le_trans hthree (List.length_filter_le _ _)
    have ha : 3 * averageOf totals ≤ Millis.ceiling :=
      Nat.le_trans (Nat.mul_le_mul_right _ hlength) hlow
    calc Nat.pow 2 128 ≤ 3 * Nat.pow (Millis.ceiling - averageOf totals) 2 := pow_le_of_third ha
      _ ≤ fullLanes totals * Nat.pow (Millis.ceiling - averageOf totals) 2 :=
        Nat.mul_le_mul_right _ hthree
      _ ≤ squaredDeviations totals (averageOf totals) := fullLanes_mul_le (by omega)

/-! ## 5. Statistics -/

/-- Statistics are made unless the squares exceed 128 bits. -/
theorem stats_eq (p : Partition) : p.stats
    = if squaredDeviations p.totals (averageOf p.totals) < Nat.pow 2 128 then
        .ok ⟨p.placements.length, p.laneCount, (Millis.sum p.totals).val, smallest p.totals,
          averageOf p.totals, largest p.totals,
          floorSqrt (squaredDeviations p.totals (averageOf p.totals) / p.laneCount)⟩
      else .error .sumTooLarge := by
  rw [averageOf, timeOf, ← Millis.val_sum]
  rfl

variable {p : Partition}

/-- **Statistics can be made** of lanes that are not too full. -/
theorem exists_stats (hne : p.totals ≠ [])
    (hroom : (p.laneCount - 2) * timeOf p.totals ≤ (p.laneCount - 1) * Millis.ceiling) :
    ∃ s, p.stats = .ok s := by
  rw [stats_eq, if_pos (squaredDeviations_lt hne hroom)]
  exact ⟨_, rfl⟩

/-- **Statistics cannot be made** of lanes too many of which are at the ceiling. -/
theorem stats_eq_error
    (h : 2 ≤ fullLanes p.totals ∧ 4 ≤ p.laneCount ∨ 3 ≤ fullLanes p.totals) :
    p.stats = .error .sumTooLarge := by
  rw [stats_eq, if_neg (Nat.not_lt.mpr (le_squaredDeviations h))]

variable {s : Stats}

/-- What statistics say is what the totals say. -/
theorem measures_of_stats_eq_ok (h : p.stats = .ok s) :
    s.minimum = smallest p.totals ∧ s.average = averageOf p.totals ∧
      s.maximum = largest p.totals := by
  rw [stats_eq] at h
  split at h
  · exact Except.ok.inj h ▸ ⟨rfl, rfl, rfl⟩
  · exact nomatch h

/-- The average is not above the largest total. -/
theorem average_le_maximum (h : p.stats = .ok s) : s.average ≤ s.maximum := by
  obtain ⟨-, haverage, hmaximum⟩ := measures_of_stats_eq_ok h
  rw [haverage, hmaximum]
  exact Nat.div_le_of_le_mul
    (Nat.le_trans (Nat.min_le_left _ _) (timeOf_le_length_mul_largest p.totals))

/-- **The smallest total is not above the average** exactly if it fits below the ceiling as many
times as there are lanes. -/
theorem minimum_le_average_iff (hne : p.totals ≠ []) (h : p.stats = .ok s) :
    s.minimum ≤ s.average ↔ p.laneCount * s.minimum ≤ Millis.ceiling := by
  obtain ⟨hminimum, haverage, -⟩ := measures_of_stats_eq_ok h
  rw [haverage, hminimum, averageOf, Nat.le_div_iff_mul_le (List.length_pos_iff.mpr hne),
    Nat.mul_comm, Nat.le_min]
  exact and_iff_right (length_mul_smallest_le p.totals)

/-! ## 6. Partitions

What is asked of the totals above, for those of a partition.
-/

namespace Spreads

variable {m : EntityMap} {n : Nat}

theorem totals_ne_nil (h : p.Spreads m n) (hn : 0 < n) : p.totals ≠ [] := by
  have hlanes : p.totals.length = n := h.laneCount_eq
  exact List.ne_nil_of_length_pos (hlanes ▸ hn)

/-- Totals of lanes have no more time than the entities. -/
theorem timeOf_totals_le (h : p.Spreads m n) : timeOf p.totals ≤ totalTime m.toList := by
  rw [timeOf, h.map_val_totals, ← h.sumOf_laneTime]
  exact sumOf_map_le fun lane _ => Nat.min_le_left _ _

/-- The average is that of all entities, cut off once. -/
theorem averageOf_totals (h : p.Spreads m n) :
    averageOf p.totals = min (totalTime m.toList) Millis.ceiling / n := by
  have hlanes : p.totals.length = n := h.laneCount_eq
  rw [averageOf, timeOf, ← Millis.val_sum, h.val_sum_totals, hlanes]

/-- **Entities whose times fit in 64 bits together have statistics.** -/
theorem exists_stats_of_fits (h : p.Spreads m n) (hn : 0 < n)
    (hfits : totalTime m.toList ≤ Millis.ceiling) : ∃ s, p.stats = .ok s :=
  exists_stats (h.totals_ne_nil hn)
    (Nat.mul_le_mul (by omega) (Nat.le_trans h.timeOf_totals_le hfits))

end Spreads

end Partition

end TestLanes
