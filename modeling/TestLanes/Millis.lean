import TestLanes.Sum

/-!
# Milliseconds up to a ceiling

Times are whole milliseconds that fit in 64 bits.  Adding stops at the ceiling, and every law is
stated on `val`, the natural number of milliseconds.

The bound is a field of the structure, so that no later proof has to carry it along.  The law that
the rest of the development uses is `val_sum`: however many times are added, and however often the
ceiling is met on the way, the result is the exact sum cut off once.  It is what makes the order of
additions immaterial.
-/

namespace TestLanes

def Millis.ceiling : Nat := Nat.pow 2 64 - 1

/-- A number of milliseconds below 2^64. Every operation cuts off at the ceiling. -/
structure Millis where
  val : Nat
  le_ceiling : val ≤ Millis.ceiling
deriving DecidableEq

namespace Millis

def ofNat (n : Nat) : Millis := ⟨min n ceiling, Nat.min_le_right n ceiling⟩

instance : Inhabited Millis := ⟨ofNat 0⟩
instance : Zero Millis := ⟨ofNat 0⟩
instance : Repr Millis := ⟨fun m p => reprPrec m.val p⟩
instance : LE Millis := ⟨fun a b => a.val ≤ b.val⟩
instance : LT Millis := ⟨fun a b => a.val < b.val⟩
instance (a b : Millis) : Decidable (a ≤ b) := inferInstanceAs (Decidable (a.val ≤ b.val))
instance (a b : Millis) : Decidable (a < b) := inferInstanceAs (Decidable (a.val < b.val))

/-- The sum, cut off at the ceiling. -/
instance : Add Millis := ⟨fun a b => ofNat (a.val + b.val)⟩

def sum (ms : List Millis) : Millis := ms.foldl (· + ·) 0

/-! ## Laws on the natural number

Each operation is described by what it does to `val`; goals about times are then goals about
naturals, `min` and the ceiling, which `omega` decides.
-/

@[simp] theorem val_ofNat (n : Nat) : (ofNat n).val = min n ceiling := rfl

@[simp] theorem val_zero : (0 : Millis).val = 0 := rfl

theorem val_add (a b : Millis) : (a + b).val = min (a.val + b.val) ceiling := rfl

theorem val_le (a : Millis) : a.val ≤ ceiling := a.le_ceiling

@[ext] theorem ext {a b : Millis} (h : a.val = b.val) : a = b := by
  cases a; cases b; simp_all

@[simp] theorem ofNat_val (a : Millis) : ofNat a.val = a :=
  Millis.ext (Nat.min_eq_left a.le_ceiling)

theorem le_def {a b : Millis} : a ≤ b ↔ a.val ≤ b.val := Iff.rfl

theorem lt_def {a b : Millis} : a < b ↔ a.val < b.val := Iff.rfl

/-- A running sum from `a` is the whole sum cut off once. -/
theorem val_foldl_add (ms : List Millis) (a : Millis) :
    (ms.foldl (· + ·) a).val = min (a.val + sumOf (ms.map val)) ceiling := by
  induction ms generalizing a with
  | nil => simpa using (Nat.min_eq_left a.le_ceiling).symm
  | cons m ms ih =>
    rw [List.foldl_cons, ih, val_add, List.map_cons, sumOf_cons]
    omega

/-- A sum is the exact sum, cut off once. -/
theorem val_sum (ms : List Millis) : (sum ms).val = min (sumOf (ms.map val)) ceiling := by
  simp [sum, val_foldl_add]

end Millis

end TestLanes
