import TestLanes.Millis
import TestLanes.Text.Numeral

/-!
# Durations

A test takes a number of whole milliseconds whose seconds fit in 64 bits.  `Millis` holds less than
that: only times that are read from a report stay below its ceiling, and a longer duration is cut
off where it is counted in `Millis`.

The bound is a field of the structure, as it is for `Millis`.
-/

namespace TestLanes.Report

/-- A number of milliseconds with less than 2^64 whole seconds. -/
structure Duration where
  val : Nat
  fits : val / 1000 < Text.wordBound
deriving DecidableEq

namespace Duration

def longest : Nat := Text.wordBound * 1000 - 1

def ofNat (n : Nat) : Duration :=
  ⟨min n longest, by
    have hpos : 0 < Text.wordBound := by decide
    have hle : min n longest ≤ longest := Nat.min_le_right n longest
    unfold longest at hle ⊢
    omega⟩

instance : Zero Duration := ⟨ofNat 0⟩
instance : Repr Duration := ⟨fun d p => reprPrec d.val p⟩

/-- Every number of milliseconds below 2^64 is a duration. -/
instance : Coe Millis Duration where
  coe m := ⟨m.val, Nat.lt_of_le_of_lt (Nat.div_le_self m.val 1000)
    (Nat.lt_of_le_pred (by decide) m.le_ceiling)⟩

/-- The duration in milliseconds, cut off at the ceiling. -/
def toMillis (d : Duration) : Millis := .ofNat d.val

end Duration

end TestLanes.Report
