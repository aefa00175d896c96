/-!
# Sums of naturals

The exact sum of a list, before anything is cut off.  Totals of lanes and of summaries are stated
against it: `Millis.sum` is `sumOf` cut off at the ceiling.
-/

namespace TestLanes

def sumOf : List Nat → Nat
  | [] => 0
  | n :: ns => n + sumOf ns

@[simp] theorem sumOf_nil : sumOf [] = 0 := rfl

@[simp] theorem sumOf_cons (n : Nat) (ns : List Nat) : sumOf (n :: ns) = n + sumOf ns := rfl

end TestLanes
