import LineBasic.Number.Binary

/-!
# The shortest decimal of a float

Every float has decimals that read back as it; among those with the fewest digits the nearest one
is chosen, and of two equally near ones the even one.  The reals that read back as `m * 2 ^ q` form
an interval, whose ends belong to it exactly if `m` is even.  The search goes from coarse decimal
grids to finer ones and stops at the first grid with a point in the interval: if a grid has such a
point at all, one of the two neighbours of the float on the grid is one.
-/

set_option autoImplicit false
namespace LineBasic.Number

/-- A decimal fraction `digits * 10 ^ exponent`. -/
structure Decimal where
  digits : Nat
  exponent : Int
deriving DecidableEq, Repr

/-- The interval of the reals that round to a float, in quarters of the unit `2 ^ q`: its ends, the
float itself, and whether the ends belong to it. -/
structure Interval where
  low : Nat
  middle : Nat
  high : Nat
  closed : Bool

/-- The interval around `m * 2 ^ q`.  Below a power of two the floats lie twice as dense. -/
def Interval.around (m : Nat) (q : Int) : Interval :=
  { low := 4 * m - (if m = twoTo 52 ∧ minExponent < q then 1 else 2)
    middle := 4 * m
    high := 4 * m + 2
    closed := m % 2 == 0 }

/-- The point of the grid of step `den / num` (in the interval's units) that is in the interval and
nearest to its middle. -/
def Interval.pick? (i : Interval) (num den : Nat) : Option Nat :=
  let below := i.middle * num / den
  let inside (c : Nat) : Bool :=
    if i.closed then i.low * num ≤ c * den && c * den ≤ i.high * num
    else i.low * num < c * den && c * den < i.high * num
  match inside below, inside (below + 1) with
  | true, true =>
    let twice := 2 * (i.middle * num)
    let half := (2 * below + 1) * den
    if twice < half then some below
    else if half < twice then some (below + 1)
    else some (below + below % 2)
  | true, false => some below
  | false, true => some (below + 1)
  | false, false => none

/-- Tries the grids of step `10 ^ e`, `10 ^ (e - 1)`, and so on. -/
def refine (i : Interval) (q : Int) : Nat → Int → Decimal
  | 0, e => ⟨0, e⟩
  | grids + 1, e =>
    let unit := q - 2
    let num := twoTo unit.toNat * tenTo (-e).toNat
    let den := twoTo (-unit).toNat * tenTo e.toNat
    match i.pick? num den with
    | some digits => ⟨digits, e⟩
    | none => refine i q grids (e - 1)

/-- An exponent of ten at or above that of the leading digit of `m * 2 ^ q`. -/
def leadingExponent (m : Nat) (q : Int) : Int :=
  ((m.log2 + 1 : Nat) + q) * 30103 / 100000 + 1

/-- The shortest decimal of `m * 2 ^ q`, for a positive `m` of at most fifty-three bits.  Seventeen
digits always suffice; the first two grids only make up for the estimate of the leading one. -/
def shortest (m : Nat) (q : Int) : Decimal :=
  refine (Interval.around m q) q 20 (leadingExponent m q)

end LineBasic.Number
