import Mathlib.Order.Bounds.Defs
import TestLanes.Parallelism.Basic
import TestLanes.Proofs.Partition.Balance

/-!
# A budget of minutes for each lane

The lanes for some minutes are as few as can hold all entities, if every lane may take that long.
Both the time of all entities and the length of a lane are cut off at 64 bits, and neither matters:
a length that is cut off still holds all that was left of the time (`le_mul_min_iff`).  So
everything about the number of lanes follows from one equivalence, `lanes_time_le_iff`.

`lanes_time_isLeast` adds what the lanes then hold: no more than the budget and the longest entity.
-/

namespace TestLanes.Parallelism

/-! ## 1. Rounding up -/

/-- A quotient rounded up is the least number of parts. -/
theorem divUp_le_iff {a b n : Nat} (hb : 0 < b) : divUp a b ≤ n ↔ a ≤ n * b := by
  rw [divUp, Nat.div_le_iff_le_mul hb]
  omega

/-- Parts may be cut off where what they hold is. -/
theorem le_mul_min_iff {x c n b : Nat} (hx : x ≤ c) (hn : 0 < n) :
    x ≤ n * min b c ↔ x ≤ n * b := by
  rcases Nat.le_total b c with hle | hle
  · rw [Nat.min_eq_left hle]
  · have hholds : x ≤ n * c := Nat.le_trans hx (Nat.le_mul_of_pos_left c hn)
    rw [Nat.min_eq_right hle]
    exact iff_of_true hholds (Nat.le_trans hholds (Nat.mul_le_mul_left n hle))

/-! ## 2. The number of lanes -/

variable {minutes : Nat}

/-- **`n` lanes are enough for the minutes** if `n` is positive and all entities fit in `n` times
that long. -/
theorem lanes_time_le_iff (hpos : 0 < minutes) (m : EntityMap) (n : Nat) :
    (time minutes).lanes m ≤ n ↔ 0 < n ∧ m.total.val ≤ n * (minutes * 60000) := by
  have hlength : (Millis.ofNat (minutes * minute)).val = min (minutes * 60000) Millis.ceiling := rfl
  have hceiling : 0 < Millis.ceiling := by decide
  have hone : max (min (minutes * 60000) Millis.ceiling) 1
      = min (minutes * 60000) Millis.ceiling := Nat.max_eq_left (by omega)
  rw [lanes, hlength, hone, Nat.max_le, divUp_le_iff (by omega), and_comm]
  exact and_congr_right fun hn => le_mul_min_iff m.total.val_le hn

/-- The same about exact times, if they fit. -/
theorem lanes_time_le_iff_of_fits (hpos : 0 < minutes) {m : EntityMap}
    (hfits : totalTime m.toList ≤ Millis.ceiling) (n : Nat) :
    (time minutes).lanes m ≤ n ↔ 0 < n ∧ totalTime m.toList ≤ n * (minutes * 60000) := by
  rw [lanes_time_le_iff hpos, EntityMap.val_total, Nat.min_eq_left hfits]

theorem lanes_time_mono (hpos : 0 < minutes) {m m' : EntityMap}
    (h : totalTime m.toList ≤ totalTime m'.toList) :
    (time minutes).lanes m ≤ (time minutes).lanes m' := by
  obtain ⟨hn, henough⟩ := (lanes_time_le_iff hpos m' _).mp (Nat.le_refl _)
  refine (lanes_time_le_iff hpos m _).mpr ⟨hn, Nat.le_trans ?_ henough⟩
  rw [EntityMap.val_total, EntityMap.val_total]
  omega

theorem lanes_time_anti (hpos : 0 < minutes) {minutes' : Nat} (h : minutes ≤ minutes')
    (m : EntityMap) : (time minutes').lanes m ≤ (time minutes).lanes m := by
  obtain ⟨hn, henough⟩ := (lanes_time_le_iff hpos m _).mp (Nat.le_refl _)
  refine (lanes_time_le_iff (Nat.lt_of_lt_of_le hpos h) m _).mpr ⟨hn, Nat.le_trans henough ?_⟩
  exact Nat.mul_le_mul_left _ (Nat.mul_le_mul_right _ h)

/-! ## 3. What the lanes hold -/

/-- Lanes that are balanced exceed what is enough on average by no more than the longest entity. -/
theorem le_add_longest {p : Partition} {m : EntityMap} {n c : Nat} (h : p.Spreads m n)
    (hfits : totalTime m.toList ≤ Millis.ceiling) (hn : 0 < n) (henough : totalTime m.toList ≤ n * c)
    {t : Millis} (ht : t ∈ p.totals) : t.val ≤ c + longest m.toList := by
  refine Nat.le_of_mul_le_mul_left ?_ hn
  calc n * t.val ≤ n * Partition.largest p.totals :=
        Nat.mul_le_mul_left n (Partition.le_largest ht)
    _ ≤ totalTime m.toList + (n - 1) * longest m.toList := h.mul_largest_le hfits
    _ ≤ n * c + n * longest m.toList :=
        Nat.add_le_add henough (Nat.mul_le_mul_right _ (Nat.sub_le n 1))
    _ = n * (c + longest m.toList) := (Nat.mul_add n c _).symm

/-- **The lanes for some minutes are as few as possible**, if the times of all entities fit in 64
bits together.  They are the least positive number of lanes that have room for all entities when
each may take so many minutes.  More time needs no fewer lanes, and more minutes no more.  On fewer
lanes, one would take longer than the minutes, whichever way the entities are put there.  On the
lanes that there are, none takes longer than the minutes and the longest entity. -/
theorem lanes_time_isLeast (hpos : 0 < minutes) {m : EntityMap}
    (hfits : totalTime m.toList < 2 ^ 64) :
    IsLeast {n | 0 < n ∧ totalTime m.toList ≤ n * (minutes * 60000)} ((time minutes).lanes m) ∧
    (∀ m', totalTime m.toList ≤ totalTime m'.toList →
      (time minutes).lanes m ≤ (time minutes).lanes m') ∧
    (∀ minutes', minutes ≤ minutes' → (time minutes').lanes m ≤ (time minutes).lanes m) ∧
    (∀ n, 0 < n → n < (time minutes).lanes m → ∀ g : Entity → Nat, (∀ e ∈ m.toList, g e < n) →
      ∃ l < n, minutes * 60000 < sumIn g Entity.time m.toList l) ∧
    ∃ p, Partition.compute m ((time minutes).lanes m) = .ok p ∧
      p.totals.length = (time minutes).lanes m ∧
      ∀ t ∈ p.totals, t.val ≤ minutes * 60000 + longest m.toList := by
  have hceiling : totalTime m.toList ≤ Millis.ceiling := Nat.le_sub_one_of_lt hfits
  have hiff := lanes_time_le_iff_of_fits hpos hceiling
  obtain ⟨hn, henough⟩ := (hiff _).mp (Nat.le_refl _)
  obtain ⟨p, hp, hspread⟩ := Partition.exists_compute m hn
  refine ⟨⟨⟨hn, henough⟩, fun n h => (hiff n).mpr h⟩, fun m' => lanes_time_mono hpos,
    fun minutes' h => lanes_time_anti hpos h m, fun n hn hfew g hg => ?_, p, hp, hspread.laneCount_eq,
    fun t ht => le_add_longest hspread hceiling hn henough ht⟩
  by_contra hshort
  have hroom : ∀ l < n, sumIn g Entity.time m.toList l ≤ minutes * 60000 :=
    fun l hl => Nat.le_of_not_lt fun hlong => hshort ⟨l, hl, hlong⟩
  have hwithin : Within g n (minutes * 60000) m.toList := ⟨hg, hroom⟩
  exact Nat.not_le_of_lt hfew ((hiff n).mpr ⟨hn, hwithin.totalTime_le⟩)

def twoHalves : EntityMap :=
  .ofList [⟨"a", .ofNat (Nat.pow 2 63), .testCase⟩, ⟨"b", .ofNat (Nat.pow 2 63 - 1), .testCase⟩]

/-- One lane is enough for minutes that do not fit in 64 bits. -/
theorem lanes_time_isLeast_twoHalves :
    0 < 307445734561826 ∧ totalTime twoHalves.toList < 2 ^ 64 ∧
    totalTime twoHalves.toList = Millis.ceiling ∧ Millis.ceiling < 307445734561826 * 60000 ∧
    IsLeast {n | 0 < n ∧ totalTime twoHalves.toList ≤ n * (307445734561826 * 60000)}
      ((time 307445734561826).lanes twoHalves) ∧
    (∀ m', totalTime twoHalves.toList ≤ totalTime m'.toList →
      (time 307445734561826).lanes twoHalves ≤ (time 307445734561826).lanes m') ∧
    (∀ minutes', 307445734561826 ≤ minutes' →
      (time minutes').lanes twoHalves ≤ (time 307445734561826).lanes twoHalves) ∧
    (∀ n, 0 < n → n < (time 307445734561826).lanes twoHalves → ∀ g : Entity → Nat,
      (∀ e ∈ twoHalves.toList, g e < n) →
      ∃ l < n, 307445734561826 * 60000 < sumIn g Entity.time twoHalves.toList l) ∧
    ∃ p, Partition.compute twoHalves ((time 307445734561826).lanes twoHalves) = .ok p ∧
      p.totals.length = (time 307445734561826).lanes twoHalves ∧
      ∀ t ∈ p.totals, t.val ≤ 307445734561826 * 60000 + longest twoHalves.toList :=
  ⟨by decide, by decide, by decide, by decide, lanes_time_isLeast (by decide) (by decide)⟩

end TestLanes.Parallelism
