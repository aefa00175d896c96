import Mathlib.Algebra.Ring.Nat
import TestLanes.Proofs.Buckets
import TestLanes.Sum

/-!
# Sums over lanes

Things are put in `n` lanes, and `sumIn` adds up a quantity over one lane.  The lanes together hold
what there is (`sumOf_range_sumIn`), so a bound that every lane keeps bounds the whole, from above
(`sumOf_range_le`) and from below (`le_sumOf_range`).
-/

namespace TestLanes

variable {α : Type}

/-! ## 1. Sums of lists

The sum is the library's, from which its laws are taken over.  Cutting off the terms before their
sum is cut off makes no difference (`min_sumOf_map_min`), since one term at the ceiling already
makes the sum reach it.
-/

theorem sumOf_eq_sum (ns : List Nat) : sumOf ns = ns.sum := by
  induction ns with
  | nil => rfl
  | cons n ns ih => rw [sumOf_cons, List.sum_cons, ih]

theorem sumOf_append (ms ns : List Nat) : sumOf (ms ++ ns) = sumOf ms + sumOf ns := by
  rw [sumOf_eq_sum, sumOf_eq_sum, sumOf_eq_sum, List.sum_append_nat]

/-- The sum over all parts is the sum of the sums over each part. -/
theorem sumOf_flatMap {β : Type} (f : β → List Nat) (xs : List β) :
    sumOf (xs.flatMap f) = sumOf (xs.map fun x => sumOf (f x)) := by
  induction xs with
  | nil => rfl
  | cons x xs ih => rw [List.flatMap_cons, sumOf_append, ih, List.map_cons, sumOf_cons]

theorem sumOf_perm {ms ns : List Nat} (h : ms.Perm ns) : sumOf ms = sumOf ns := by
  rw [sumOf_eq_sum, sumOf_eq_sum, h.sum_nat]

theorem sumOf_map_const (c : Nat) (xs : List α) : sumOf (xs.map fun _ => c) = xs.length * c := by
  rw [sumOf_eq_sum, List.map_const', List.sum_replicate_nat]

theorem sumOf_map_le {f g : α → Nat} {xs : List α} (h : ∀ x ∈ xs, f x ≤ g x) :
    sumOf (xs.map f) ≤ sumOf (xs.map g) := by
  induction xs with
  | nil => exact Nat.le_refl 0
  | cons x xs ih =>
    have hx : f x ≤ g x := h x List.mem_cons_self
    have hxs := ih fun y hy => h y (List.mem_cons_of_mem x hy)
    simp only [List.map_cons, sumOf_cons]
    omega

theorem sumOf_sublist {ms ns : List Nat} (h : ms.Sublist ns) : sumOf ms ≤ sumOf ns := by
  induction h with
  | slnil => exact Nat.le_refl 0
  | cons n _ ih => exact Nat.le_trans ih (Nat.le_add_left _ n)
  | cons_cons n _ ih => exact Nat.add_le_add_left ih n

/-- Terms may be cut off one by one before their sum is cut off. -/
theorem min_sumOf_map_min (f : α → Nat) (c : Nat) (xs : List α) :
    min (sumOf (xs.map fun x => min (f x) c)) c = min (sumOf (xs.map f)) c := by
  induction xs with
  | nil => rfl
  | cons x xs ih =>
    simp only [List.map_cons, sumOf_cons]
    omega

/-! ## 2. The part of one lane

The placement is a function here, so that a partition can be compared with any other way of placing
the same things.
-/

/-- What `f` adds up to over the things that `place` puts in the lane. -/
def sumIn (place : α → Nat) (f : α → Nat) (xs : List α) (lane : Nat) : Nat :=
  sumOf ((xs.filter fun x => place x = lane).map f)

theorem sumIn_cons (place : α → Nat) (f : α → Nat) (x : α) (xs : List α) (lane : Nat) :
    sumIn place f (x :: xs) lane
      = if place x = lane then f x + sumIn place f xs lane else sumIn place f xs lane := by
  unfold sumIn
  by_cases h : place x = lane <;> simp [h]

theorem sumIn_perm (place : α → Nat) (f : α → Nat) {xs ys : List α} (h : xs.Perm ys) (lane : Nat) :
    sumIn place f xs lane = sumIn place f ys lane :=
  sumOf_perm ((h.filter _).map f)

theorem sumIn_le_cons (place : α → Nat) (f : α → Nat) (x : α) (xs : List α) (lane : Nat) :
    sumIn place f xs lane ≤ sumIn place f (x :: xs) lane :=
  sumOf_sublist (((List.sublist_cons_self x xs).filter _).map f)

/-! ## 3. All lanes together -/

/-- **The lanes share out the whole.**  If everything is in one of the first `n` lanes, their parts
add up to the sum over everything. -/
theorem sumOf_range_sumIn {place : α → Nat} {n : Nat} {xs : List α} (h : ∀ x ∈ xs, place x < n)
    (f : α → Nat) : sumOf ((List.range n).map (sumIn place f xs)) = sumOf (xs.map f) := by
  have hperm : ((List.range n).flatMap fun lane => xs.filter fun x => place x = lane).Perm xs :=
    flatMap_filter_perm_self List.nodup_range fun x hx => List.mem_range.mpr (h x hx)
  calc sumOf ((List.range n).map (sumIn place f xs))
      = sumOf ((List.range n).flatMap fun lane => (xs.filter fun x => place x = lane).map f) :=
        (sumOf_flatMap _ _).symm
    _ = sumOf (((List.range n).flatMap fun lane => xs.filter fun x => place x = lane).map f) := by
        rw [List.map_flatMap]
    _ = sumOf (xs.map f) := sumOf_perm (hperm.map f)

/-- If no lane has more than `c`, all of them have no more than `n * c`. -/
theorem sumOf_range_le {n c : Nat} {part : Nat → Nat} (h : ∀ l < n, part l ≤ c) :
    sumOf ((List.range n).map part) ≤ n * c := by
  have hle : sumOf ((List.range n).map part) ≤ sumOf ((List.range n).map fun _ => c) :=
    sumOf_map_le fun l hl => h l (List.mem_range.mp hl)
  rwa [sumOf_map_const, List.length_range] at hle

/-- If no lane has less than `c`, all of them have no less than `n * c`. -/
theorem le_sumOf_range {n c : Nat} {part : Nat → Nat} (h : ∀ l < n, c ≤ part l) :
    n * c ≤ sumOf ((List.range n).map part) := by
  have hle : sumOf ((List.range n).map fun _ => c) ≤ sumOf ((List.range n).map part) :=
    sumOf_map_le fun l hl => h l (List.mem_range.mp hl)
  rwa [sumOf_map_const, List.length_range] at hle

end TestLanes
