import Mathlib.Data.Nat.Sqrt
import TestLanes.Proofs.Partition.Approximation
import TestLanes.Proofs.Partition.Statistics

/-!
# Statistics are exact where nothing is cut off

As long as the time of all entities fits in 64 bits, statistics say what they seem to say
(`statistics_exact`): the average is the time of all entities divided by the number of lanes and
rounded down, it lies between the least and the greatest total, and the deviation is the root of the
mean square, rounded down once, although it is rounded down twice on the way
(`mul_sq_floorSqrt_le`, `lt_mul_sq_floorSqrt`).

Nothing on the way leaves the integers that it is kept in (`FitsWords`).  The reason is that the
squares of the deviations add up to no more than the square of the whole time, whatever the number
of lanes (`squaredDeviations_le_sq`).
-/

namespace TestLanes

/-! ## 1. Roots

The root is taken digit by digit, two bits of the number at a time.  It is the root of the library,
by the recursion of its definition; the bounds on it are the library's from then on.  For a mean,
dividing rounds down before the root does, and this makes no difference to the result.
-/

/-- The root is the library's. -/
theorem floorSqrt_eq_sqrt (n : Nat) : floorSqrt n = n.sqrt := by
  fun_induction floorSqrt n with
  | case1 => rfl
  | case2 n hn r hle ih =>
    have hquarter := Nat.lt_succ_sqrt (n / 4)
    simp only [Nat.succ_eq_add_one, ← ih] at hquarter
    refine Nat.eq_sqrt.mpr ⟨hle, ?_⟩
    have hn : n < 4 * (n / 4 + 1) := by omega
    calc n < 4 * (n / 4 + 1) := hn
      _ ≤ 4 * ((floorSqrt (n / 4) + 1) * (floorSqrt (n / 4) + 1)) := Nat.mul_le_mul_left 4 hquarter
      _ = (r + 1 + 1) * (r + 1 + 1) := by simp only [r]; ring
  | case3 n hn r hlt ih =>
    have hquarter := Nat.sqrt_le (n / 4)
    rw [← ih] at hquarter
    refine Nat.eq_sqrt.mpr ⟨?_, Nat.lt_of_not_le hlt⟩
    calc r * r = 4 * (floorSqrt (n / 4) * floorSqrt (n / 4)) := by simp only [r]; ring
      _ ≤ 4 * (n / 4) := Nat.mul_le_mul_left 4 hquarter
      _ ≤ n := Nat.mul_div_le n 4

/-- **Rounding down a mean and then its root is rounding down once**, from below. -/
theorem mul_sq_floorSqrt_le (squares n : Nat) : n * floorSqrt (squares / n) ^ 2 ≤ squares := by
  rw [floorSqrt_eq_sqrt]
  exact Nat.le_trans (Nat.mul_le_mul_left n (Nat.sqrt_le' _)) (Nat.mul_div_le squares n)

/-- And from above. -/
theorem lt_mul_sq_floorSqrt (squares : Nat) {n : Nat} (hn : 0 < n) :
    squares < n * (floorSqrt (squares / n) + 1) ^ 2 := by
  rw [floorSqrt_eq_sqrt]
  have hmean : squares / n < ((squares / n).sqrt + 1) ^ 2 := Nat.lt_succ_sqrt' _
  rw [Nat.mul_comm]
  exact (Nat.div_lt_iff_lt_mul hn).mp hmean

namespace Partition

/-! ## 2. Squares

Deviations are taken without a sign, as the larger value less the smaller one, whereas the words
that keep them have a sign.  Both have the same square.  The bound on the sum of the squares needs
no more than that `n` times the average is at most the sum.
-/

/-- No more than the square of their sum is the sum of the squares of some times. -/
theorem sumOf_squares_le_sq (totals : List Millis) :
    sumOf (totals.map fun t => t.val * t.val) ≤ timeOf totals * timeOf totals := by
  unfold timeOf
  induction totals with
  | nil => exact Nat.le_refl 0
  | cons t ts ih =>
    simp only [List.map_cons, sumOf_cons]
    nlinarith [Nat.zero_le (t.val * sumOf (ts.map Millis.val))]

/-- **The squares of the deviations** from an average that is rounded down add up to no more than
the square of the sum. -/
theorem squaredDeviations_le_sq {totals : List Millis} {a : Nat}
    (ha : totals.length * a ≤ timeOf totals) :
    squaredDeviations totals a ≤ timeOf totals ^ 2 := by
  have hsum := squaredDeviations_add totals a
  have hsquares := sumOf_squares_le_sq totals
  have haverage : totals.length * (a * a) ≤ a * timeOf totals := by
    calc totals.length * (a * a) = a * (totals.length * a) := by ring
      _ ≤ a * timeOf totals := Nat.mul_le_mul_left a ha
  have htwice : a * timeOf totals ≤ 2 * a * timeOf totals := by
    rw [Nat.mul_assoc]
    omega
  rw [Nat.pow_two]
  omega

/-- The square of a deviation, as an integer. -/
theorem cast_sq_deviation (t a : Nat) :
    (Nat.pow (max t a - min t a) 2 : Int) = ((t : Int) - a) ^ 2 := by
  rcases Nat.le_total t a with h | h <;> obtain ⟨d, rfl⟩ := Nat.exists_eq_add_of_le h
  · rw [Nat.max_eq_right h, Nat.min_eq_left h, Nat.add_sub_cancel_left, Nat.pow_eq]
    push_cast
    ring
  · rw [Nat.max_eq_left h, Nat.min_eq_right h, Nat.add_sub_cancel_left, Nat.pow_eq]
    push_cast
    ring

/-- The sum of the squares of the deviations, as an integer. -/
def squareSum (totals : List Millis) (a : Nat) : Int :=
  (totals.map fun t => ((t.val : Int) - a) ^ 2).sum

/-- It is what statistics add up. -/
theorem squareSum_eq (totals : List Millis) (a : Nat) :
    squareSum totals a = squaredDeviations totals a := by
  unfold squareSum squaredDeviations
  induction totals with
  | nil => rfl
  | cons t ts ih =>
    rw [List.map_cons, List.sum_cons, ih, List.map_cons, sumOf_cons, ← cast_sq_deviation]
    push_cast
    rfl

/-! ## 3. Words

Sums are made from left to right, so the values on the way are sums of the first totals, whatever
their number.  Each is bounded by the sum of all, which is bounded by the whole time or by its
square.
-/

/-- Every value on the way from the totals to the average and the deviation fits in the integer that
it is kept in: sums of totals and the average in 64 bits, deviations in 128 bits with a sign, their
squares and the sums of these in 128 bits, and the root in 64 bits again. -/
structure FitsWords (totals : List Millis) (average root : Nat) : Prop where
  sums : ∀ k, timeOf (totals.take k) < 2 ^ 64
  average_lt : average < 2 ^ 64
  deviations : ∀ t ∈ totals, -2 ^ 127 ≤ (t.val : Int) - average ∧ (t.val : Int) - average < 2 ^ 127
  squares : ∀ t ∈ totals, ((t.val : Int) - average) ^ 2 < 2 ^ 128
  squareSums : ∀ k, squareSum (totals.take k) average < 2 ^ 128
  root_lt : root < 2 ^ 64

theorem timeOf_take_le (k : Nat) (totals : List Millis) : timeOf (totals.take k) ≤ timeOf totals :=
  sumOf_sublist ((List.take_sublist k totals).map _)

theorem squaredDeviations_take_le (k : Nat) (totals : List Millis) (a : Nat) :
    squaredDeviations (totals.take k) a ≤ squaredDeviations totals a :=
  sumOf_sublist ((List.take_sublist k totals).map _)

/-- **Nothing overflows** if the sum of the totals does not. -/
theorem fitsWords {totals : List Millis} {a : Nat} (hn : 0 < totals.length)
    (ha : totals.length * a ≤ timeOf totals) (hfits : timeOf totals < 2 ^ 64) :
    FitsWords totals a (floorSqrt (squaredDeviations totals a / totals.length)) := by
  have hceiling : Millis.ceiling = 2 ^ 64 - 1 := rfl
  have haverage : a < 2 ^ 64 :=
    Nat.lt_of_le_of_lt (Nat.le_trans (Nat.le_mul_of_pos_left a hn) ha) hfits
  have hsquares : squaredDeviations totals a < 2 ^ 128 :=
    calc squaredDeviations totals a ≤ timeOf totals ^ 2 := squaredDeviations_le_sq ha
      _ < (2 ^ 64) ^ 2 := Nat.pow_lt_pow_left hfits (by decide)
      _ = 2 ^ 128 := by decide
  refine ⟨fun k => Nat.lt_of_le_of_lt (timeOf_take_le k totals) hfits, haverage, fun t _ => ?_,
    fun t _ => ?_, fun k => ?_, ?_⟩
  · have ht := t.val_le
    omega
  · have ht := t.val_le
    have hdistance : max t.val a - min t.val a < 2 ^ 64 := by omega
    rw [← cast_sq_deviation]
    exact_mod_cast Nat.pow_lt_pow_left hdistance (by decide : 2 ≠ 0)
  · rw [squareSum_eq]
    exact_mod_cast Nat.lt_of_le_of_lt (squaredDeviations_take_le k totals a) hsquares
  · rw [floorSqrt_eq_sqrt, Nat.sqrt_lt']
    exact Nat.lt_of_le_of_lt (Nat.div_le_self _ _) hsquares

/-! ## 4. Partitions

If the times of all entities fit in 64 bits, so do those of each lane, and no total is cut off.  The
bounds on the sums then hold of the totals, and the statistics are those of exact times.
-/

namespace Spreads

variable {p : Partition} {m : EntityMap} {n : Nat}

/-- If the time of all entities fits in 64 bits, no total is cut off. -/
theorem timeOf_totals (h : p.Spreads m n) (hfits : totalTime m.toList ≤ Millis.ceiling) :
    timeOf p.totals = totalTime m.toList := by
  have hsum := h.val_sum_totals
  rw [Millis.val_sum, Nat.min_eq_left hfits] at hsum
  rw [← hsum]
  exact (Nat.min_eq_left (Nat.le_trans h.timeOf_totals_le hfits)).symm

/-- Nor is the time of a lane. -/
theorem val_totals (h : p.Spreads m n) (hfits : totalTime m.toList ≤ Millis.ceiling) {lane : Nat}
    (hlane : lane < n) :
    p.totals[lane]?.map Millis.val = some (totalTime (p.laneEntities lane)) := by
  have hpart : totalTime (p.laneEntities lane) ≤ totalTime m.toList := by
    rw [← totalTime_perm h.entities_perm]
    exact sumOf_sublist ((List.filter_sublist.map _).map _)
  rw [h.getElem?_totals hlane, Option.map_some, Millis.val_ofNat,
    Nat.min_eq_left (Nat.le_trans hpart hfits)]

end Spreads

/-- The largest of some times is one of them. -/
theorem exists_largest {totals : List Millis} (h : totals ≠ []) :
    ∃ t ∈ totals, largest totals = t.val := by
  rcases largest_eq_zero_or totals with hzero | hlargest
  · obtain ⟨t, ht⟩ := List.exists_mem_of_ne_nil totals h
    have hle := le_largest ht
    exact ⟨t, ht, by omega⟩
  · exact hlargest

/-- The deviation is the root of the mean square, rounded down twice. -/
theorem deviation_of_stats_eq_ok {p : Partition} {s : Stats} (h : p.stats = .ok s) :
    s.deviation = floorSqrt (squaredDeviations p.totals (averageOf p.totals) / p.totals.length) := by
  rw [stats_eq] at h
  split at h
  · exact Except.ok.inj h ▸ rfl
  · exact nomatch h

/-- **Statistics are exact.**  Let the times of any entities fit in 64 bits together, and spread
them over any number of lanes but zero.  Then there are statistics, and no value on the way to them
overflows.  Each total is the time of the entities of its lane, and the totals add up to the time of
all entities, which statistics give as their total.  The average is this time divided by the number
of lanes and rounded down.  The minimum and the maximum are the least and the greatest total, and
the average lies between them.  The deviation is the root of the mean square of the differences
between the totals and the average, rounded down. -/
theorem statistics_exact (m : EntityMap) {n : Nat} (hn : 0 < n)
    (hfits : totalTime m.toList < 2 ^ 64) :
    ∃ p s, compute m n = .ok p ∧ p.stats = .ok s ∧ FitsWords p.totals s.average s.deviation ∧
      p.totals.length = n ∧
      (∀ lane < n, p.totals[lane]?.map Millis.val = some (totalTime (p.laneEntities lane))) ∧
      timeOf p.totals = totalTime m.toList ∧ s.total = totalTime m.toList ∧
      s.average = totalTime m.toList / n ∧
      (∀ t ∈ p.totals, s.minimum ≤ t.val ∧ t.val ≤ s.maximum) ∧
      (∃ t ∈ p.totals, s.minimum = t.val) ∧ (∃ t ∈ p.totals, s.maximum = t.val) ∧
      s.minimum ≤ s.average ∧ s.average ≤ s.maximum ∧
      n * (s.deviation : Int) ^ 2 ≤ squareSum p.totals s.average ∧
      squareSum p.totals s.average < n * (s.deviation + 1 : Int) ^ 2 := by
  have hceiling : totalTime m.toList ≤ Millis.ceiling := Nat.le_sub_one_of_lt hfits
  obtain ⟨p, hp, hspread⟩ := exists_compute m hn
  obtain ⟨s, hs⟩ := hspread.exists_stats_of_fits hn hceiling
  have hlanes : p.totals.length = n := hspread.laneCount_eq
  have hne : p.totals ≠ [] := hspread.totals_ne_nil hn
  have htime : timeOf p.totals = totalTime m.toList := hspread.timeOf_totals hceiling
  have haverage : averageOf p.totals = totalTime m.toList / n := by
    rw [hspread.averageOf_totals, Nat.min_eq_left hceiling]
  have hlow : n * averageOf p.totals ≤ timeOf p.totals := by
    rw [haverage, htime]
    exact Nat.mul_div_le _ n
  have hwords := fitsWords (hlanes ▸ hn) (hlanes ▸ hlow) (htime ▸ hfits)
  have hdeviation : s.deviation
      = floorSqrt (squaredDeviations p.totals (averageOf p.totals) / p.totals.length) :=
    deviation_of_stats_eq_ok hs
  obtain ⟨hminimum, hquotient, hmaximum⟩ := measures_of_stats_eq_ok hs
  have hsquares := squareSum_eq p.totals (averageOf p.totals)
  rw [← hquotient] at hwords hsquares hdeviation haverage
  refine ⟨p, s, hp, hs, hdeviation ▸ hwords, hlanes, fun lane => hspread.val_totals hceiling, htime, ?_,
    haverage, fun t ht => ⟨hminimum ▸ smallest_le ht, hmaximum ▸ le_largest ht⟩,
    hminimum ▸ exists_smallest hne, hmaximum ▸ exists_largest hne, ?_, average_le_maximum hs, ?_, ?_⟩
  · rw [(of_stats_eq_ok hs).2, hspread.val_sum_totals, Nat.min_eq_left hceiling]
  · refine (minimum_le_average_iff hne hs).mpr ?_
    calc p.laneCount * s.minimum = p.totals.length * smallest p.totals := by rw [hminimum, laneCount]
      _ ≤ timeOf p.totals := length_mul_smallest_le p.totals
      _ ≤ Millis.ceiling := htime ▸ hceiling
  · rw [hsquares, hdeviation, hlanes]
    exact_mod_cast mul_sq_floorSqrt_le _ n
  · rw [hsquares, hdeviation, hlanes]
    exact_mod_cast lt_mul_sq_floorSqrt _ hn

/-- Three entities that have together the longest time of 64 bits. -/
def brimfulEntities : EntityMap :=
  .ofList [⟨"a.LongTest", .ofNat (Nat.pow 2 63), .testClass⟩,
    ⟨"a.MiddleTest", .ofNat (Nat.pow 2 62), .testClass⟩,
    ⟨"a.ShortTest", .ofNat (Nat.pow 2 62 - 1), .testClass⟩]

/-- Four lanes share them out, one of which has none. -/
theorem statistics_exact_brimfulEntities :
    0 < 4 ∧ totalTime brimfulEntities.toList = 2 ^ 64 - 1 ∧
      totalTime brimfulEntities.toList < 2 ^ 64 ∧
      ∃ p s, compute brimfulEntities 4 = .ok p ∧ p.stats = .ok s ∧
        FitsWords p.totals s.average s.deviation ∧ p.totals.length = 4 ∧
        (∀ lane < 4, p.totals[lane]?.map Millis.val = some (totalTime (p.laneEntities lane))) ∧
        timeOf p.totals = totalTime brimfulEntities.toList ∧
        s.total = totalTime brimfulEntities.toList ∧
        s.average = totalTime brimfulEntities.toList / 4 ∧
        (∀ t ∈ p.totals, s.minimum ≤ t.val ∧ t.val ≤ s.maximum) ∧
        (∃ t ∈ p.totals, s.minimum = t.val) ∧ (∃ t ∈ p.totals, s.maximum = t.val) ∧
        s.minimum ≤ s.average ∧ s.average ≤ s.maximum ∧
        (4 : Nat) * (s.deviation : Int) ^ 2 ≤ squareSum p.totals s.average ∧
        squareSum p.totals s.average < (4 : Nat) * (s.deviation + 1 : Int) ^ 2 :=
  ⟨by decide, by decide, by decide, statistics_exact brimfulEntities (by decide) (by decide)⟩

end Partition

end TestLanes
