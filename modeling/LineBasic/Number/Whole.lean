import LineBasic.Number.Binary

/-!
# Integer parts

Truncation, floor, ceiling and the remainder of floats, computed exactly on integers.  Infinities
and the value that is no number have no integer part; what then happens is the caller's decision,
so these cases are reported as mishaps with their texts.
-/

set_option autoImplicit false
namespace LineBasic.Number

/-- Why a computation on numbers has no answer: it leaves the range of numbers, or it is not
defined. -/
inductive Mishap where
  | overflow (text : String)
  | undefined (text : String)
deriving DecidableEq, Repr

/-- The integer part of a float, toward zero. -/
def truncate (x : Float) : Except Mishap Int :=
  if x.isNaN then .error (.undefined "cannot convert float NaN to integer")
  else if x.isInf then .error (.overflow "cannot convert float infinity to integer")
  else
    let (m, q) := magnitude x
    let whole : Nat := m * twoTo q.toNat / twoTo (-q).toNat
    .ok (if isNegative x then -(whole : Int) else whole)

/-- Whether a finite float is an integer. -/
def isWhole (x : Float) : Bool :=
  let (m, q) := magnitude x
  m * twoTo q.toNat % twoTo (-q).toNat == 0

/-- The largest integer that is not above the float. -/
def floor (x : Float) : Except Mishap Int := do
  let whole ← truncate x
  return if isNegative x && !isWhole x then whole - 1 else whole

/-- The smallest integer that is not below the float. -/
def ceiling (x : Float) : Except Mishap Int := do
  let whole ← truncate x
  return if !isNegative x && !isWhole x then whole + 1 else whole

/-- The remainder of a division with truncated quotient.  It has the sign of the dividend and is
exact; an infinite dividend has none. -/
def remainder (x y : Float) : Except Mishap Float :=
  if x.isNaN || y.isNaN then .ok nan
  else if x.isInf then .error (.undefined "math domain error")
  else if y.isInf then .ok x
  else
    let (m, p) := magnitude x
    let (n, q) := magnitude y
    let unit := min p q
    let rest := (m * twoTo (p - unit).toNat) % (n * twoTo (q - unit).toNat)
    let size := nearest (rest * twoTo unit.toNat) (twoTo (-unit).toNat)
    .ok (if isNegative x then -size else size)

end LineBasic.Number
