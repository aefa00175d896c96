/-!
# Numbers with 53 binary places

A `Magnitude` is a number `m * 2 ^ e`; the ones that `ofRatio` gives have `m < 2 ^ 53` and `-1074 ≤
e ≤ 971`, which are the finite magnitudes of the 64-bit floating-point format.  All arithmetic is
exact arithmetic of naturals followed by one rounding to the nearest magnitude, a tie going to the
even neighbour.

The times of a report are decimal numerals that are read into this format, multiplied by a thousand
and rounded to milliseconds.  Exact decimals would sometimes give the neighbouring millisecond: a
numeral that ends in half a millisecond need not be one in the format, so the two roundings are
modelled as they happen.
-/

namespace TestLanes.Decimal

/-- The number `m * 2 ^ e`. -/
structure Magnitude where
  m : Nat
  e : Int
deriving Repr, DecidableEq

/-- A signed number of the format, or one of its special values. -/
inductive Binary64 where
  | finite (negative : Bool) (magnitude : Magnitude)
  | infinite (negative : Bool)
  | nan
deriving Repr, DecidableEq

/-! ## 1. Rounding

A ratio is brought to the scale `2 ^ e` at which its whole part has 53 binary places, or to the
smallest scale of the format, and rounded there.  The comparison of the binary logarithms is off by
at most one, which `fits` corrects; a number that rounding carries to `2 ^ 53` moves to the next
scale.
-/

/-- The natural nearest to `num / den`; a tie goes to the even one. -/
def roundEven (num den : Nat) : Nat :=
  let q := num / den
  let r := num % den
  if 2 * r < den then q
  else if den < 2 * r then q + 1
  else if q % 2 = 0 then q else q + 1

/-- The natural nearest to `num / den`; a tie goes to the larger one. -/
def roundUp (num den : Nat) : Nat := (2 * num + den) / (2 * den)

/-- The ratio `num / den` divided by `2 ^ e`, again as a ratio. -/
def scale (num den : Nat) (e : Int) : Nat × Nat :=
  if 0 ≤ e then (num, den * Nat.pow 2 e.toNat) else (num * Nat.pow 2 (-e).toNat, den)

/-- The magnitude nearest to `num / den`; none if that is beyond the largest one. -/
def Magnitude.ofRatio (num den : Nat) : Option Magnitude :=
  if num = 0 then some ⟨0, -1074⟩
  else
    let low : Int := max ((Nat.log2 num : Int) - (Nat.log2 den : Int) - 53) (-1074)
    let fits (e : Int) : Bool := let (a, b) := scale num den e; a / b < Nat.pow 2 53
    let e := if fits low then low else low + 1
    let (a, b) := scale num den e
    let m := roundEven a b
    let r : Magnitude := if m = Nat.pow 2 53 then ⟨Nat.pow 2 52, e + 1⟩ else ⟨m, e⟩
    if 971 < r.e then none else some r

/-! ## 2. Operations

Each operation is taken on exact ratios and rounded once at the end.
-/

def Magnitude.ratio (x : Magnitude) : Nat × Nat :=
  if 0 ≤ x.e then (x.m * Nat.pow 2 x.e.toNat, 1) else (x.m, Nat.pow 2 (-x.e).toNat)

def Magnitude.ofNat (n : Nat) : Option Magnitude := Magnitude.ofRatio n 1

def Magnitude.mul (x y : Magnitude) : Option Magnitude :=
  Magnitude.ofRatio (x.ratio.1 * y.ratio.1) (x.ratio.2 * y.ratio.2)

def Magnitude.div (x y : Magnitude) : Option Magnitude :=
  Magnitude.ofRatio (x.ratio.1 * y.ratio.2) (x.ratio.2 * y.ratio.1)

def Magnitude.floor (x : Magnitude) : Nat := x.ratio.1 / x.ratio.2

def Magnitude.round (x : Magnitude) : Nat := roundUp x.ratio.1 x.ratio.2

def Binary64.isZero : Binary64 → Bool
  | .finite _ x => x.m == 0
  | _ => false

/-! ## 3. Decimal numerals

A numeral keeps its digits and its exponent as they are written, and is rounded once.  The exponent
is not bounded by the text, so that numerals far outside the format are settled by their width
before a power of ten is taken.
-/

/-- The number `digits * 10 ^ exponent` with a sign. -/
structure Numeral where
  negative : Bool
  digits : Nat
  exponent : Int
deriving Repr, DecidableEq

def width (n : Nat) : Nat := (Nat.toDigits 10 n).length

/-- The magnitude nearest to the numeral; none if it is too large.  Numerals far outside the format
are settled by their width alone. -/
def Numeral.magnitude (d : Numeral) : Option Magnitude :=
  if d.digits = 0 then some ⟨0, -1074⟩
  else
    let top := d.exponent + (width d.digits : Int)
    if 400 < top then none
    else if top < -400 then some ⟨0, -1074⟩
    else if 0 ≤ d.exponent then Magnitude.ofRatio (d.digits * Nat.pow 10 d.exponent.toNat) 1
    else Magnitude.ofRatio d.digits (Nat.pow 10 (-d.exponent).toNat)

def Numeral.toBinary64 (d : Numeral) : Binary64 :=
  match d.magnitude with
  | some x => .finite d.negative x
  | none => .infinite d.negative

/-! ## 4. Shortest decimal text

A number is written with the fewest digits that read back as it.  The reals that round to a
magnitude form an interval whose ends are counted in quarters of its last place, since the neighbour
below a power of two is only half as far away; the number of places grows until a decimal of that
many digits lies in the interval.
-/

/-- Bounds of the reals that round to `x`, and `x` itself, over the common denominator `4`: the
triple counts quarters of `2 ^ e`. -/
def Magnitude.quarters (x : Magnitude) : Nat × Nat × Nat :=
  let below := if x.m = Nat.pow 2 52 ∧ -1074 < x.e then 4 * x.m - 1 else 4 * x.m - 2
  (below, 4 * x.m, 4 * x.m + 2)

/-- The decimal with `places` digits that is nearest to `x` among those that round to `x`, as
`digits * 10 ^ exponent`, if there is one.  `top` is the number of digits before the point. -/
def Magnitude.decimalWith (x : Magnitude) (top : Int) (places : Nat) : Option (Nat × Int) :=
  let exponent := top - (places : Int)
  let (lo, mid, hi) := x.quarters
  let unit := x.e - 2
  -- `grid q` is `q` quarters counted in steps of `10 ^ exponent`, as a ratio
  let grid (q : Nat) : Nat × Nat :=
    let (a, b) := scale q 1 (-unit)
    if 0 ≤ exponent then (a, b * Nat.pow 10 exponent.toNat) else (a * Nat.pow 10 (-exponent).toNat, b)
  let inside (d : Nat) : Bool :=
    let (a, b) := grid lo
    let (a', b') := grid hi
    if x.m % 2 = 0 then decide (a ≤ d * b ∧ d * b' ≤ a')
    else decide (a < d * b ∧ d * b' < a')
  let (a, b) := grid mid
  let down := a / b
  let up := down + 1
  match inside down, inside up with
  | true, true => if 2 * (a % b) ≤ b then some (down, exponent) else some (up, exponent)
  | true, false => some (down, exponent)
  | false, true => some (up, exponent)
  | false, false => none

/-- The fewest digits that read back as `x`, and of those the nearest to `x`. -/
def Magnitude.shortest (x : Magnitude) : Nat × Int :=
  if x.m = 0 then (0, 0)
  else
    let (num, den) := x.ratio
    let top : Int :=
      if den ≤ num then (width (num / den) : Int)
      else 1 - (width ((den - 1) / num) : Int)
    ((List.range 17).findSome? fun k => x.decimalWith top (k + 1)).getD (0, 0)

/-- The digits without trailing zeros, with the exponent that makes up for them. -/
def stripZeros : Nat → Nat × Int → Nat × Int
  | 0, d => d
  | fuel + 1, (digits, e) =>
    if digits ≠ 0 ∧ digits % 10 = 0 then stripZeros fuel (digits / 10, e + 1) else (digits, e)

/-- The magnitude written without an exponent and with no needless zeros. -/
def Magnitude.text (x : Magnitude) : String :=
  let (digits, e) := stripZeros 400 x.shortest
  let ds := toString digits
  if digits = 0 then "0"
  else if 0 ≤ e then ds ++ String.ofList (List.replicate e.toNat '0')
  else
    let places := (-e).toNat
    let padded := List.replicate (places + 1 - ds.length) '0' ++ ds.toList
    let whole := padded.length - places
    String.ofList (padded.take whole) ++ "." ++ String.ofList (padded.drop whole)

def Binary64.text : Binary64 → String
  | .finite negative x => (if negative then "-" else "") ++ x.text
  | .infinite negative => (if negative then "-" else "") ++ "inf"
  | .nan => "NaN"

end TestLanes.Decimal
