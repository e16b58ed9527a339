import LineBasic.Number.Whole

/-!
# Elementary functions

The functions of one number that programs may call, and powers.  A function that is not defined at
a number, or whose value is too large for one, says so.  Where a function is given by the platform's
library, an answer that is no number for an argument that is one means "not defined"; an infinite
answer for a finite argument means that the value is too large if the function grows without bound,
and a pole of the function otherwise.
-/

set_option autoImplicit false
namespace LineBasic.Number

/-- Passes on a value computed by the library, unless it stands for a failure.  `grows` tells the
functions whose infinite values are overflows from those that have poles. -/
def guarded (grows : Bool) (f : Float → Float) (x : Float) : Except Mishap Float :=
  let y := f x
  if y.isNaN && !x.isNaN then .error (.undefined "math domain error")
  else if y.isInf && x.isFinite then
    if grows then .error (.overflow "math range error")
    else .error (.undefined "math domain error")
  else .ok y

/-- An integer-valued function as a function on numbers. -/
def integral (f : Float → Except Mishap Int) (x : Float) : Except Mishap Float :=
  return ofInt (← f x)

/-- The sign of a number: one, minus one, or zero. -/
def sign (x : Float) : Float :=
  ofInt (if 0 < x then 1 else if x < 0 then -1 else 0)

/-- The nearest integer, a half upward. -/
def round (x : Float) : Except Mishap Float :=
  integral floor (x + 0.5)

/-- The real cube root, by way of the power one third of the absolute value. -/
def cubeRoot (x : Float) : Float :=
  let root := Float.pow x.abs (1.0 / 3.0)
  if isNegative x then -root else root

/-- Raises a number to a power.  The base is not zero if the exponent is negative. -/
def power (x y : Float) : Except Mishap Float :=
  let r := Float.pow x y
  if x.isFinite && y.isFinite && r.isNaN then .error (.undefined "math domain error")
  else if x.isFinite && y.isFinite && r.isInf then .error (.overflow "math range error")
  else .ok r

end LineBasic.Number
