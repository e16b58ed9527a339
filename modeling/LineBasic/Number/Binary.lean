import LineBasic.Number.Power

/-!
# Floats as binary fractions

A finite float is an integer times a power of two.  This file takes floats apart into these two
numbers and builds the float nearest to a given fraction, in exact integer arithmetic, so that
reading and printing decimals, truncation and remainders need no rounding of their own.

* `magnitude` — the absolute value of a finite float as `m * 2 ^ q`.
* `nearest` — the float nearest to a non-negative fraction, ties to the even mantissa.
* `ofInt` — the float nearest to an integer.
-/

set_option autoImplicit false
namespace LineBasic.Number

/-! ## Taking a float apart -/

/-- The eleven exponent bits. -/
def exponentField (x : Float) : Nat :=
  x.toBits.toNat / twoTo 52 % twoTo 11

/-- The fifty-two bits of the fraction. -/
def fractionField (x : Float) : Nat :=
  x.toBits.toNat % twoTo 52

/-- Whether the sign bit is set; also true of negative zero. -/
def isNegative (x : Float) : Bool :=
  x.toBits.toNat / twoTo 63 == 1

/-- The least exponent of two that a float's mantissa is scaled by. -/
def minExponent : Int := -1074

/-- The absolute value of a finite float as a pair `(m, q)` that stands for `m * 2 ^ q`. -/
def magnitude (x : Float) : Nat × Int :=
  if exponentField x = 0 then (fractionField x, minExponent)
  else (twoTo 52 + fractionField x, minExponent + (exponentField x - 1 : Nat))

/-! ## The float nearest to a fraction -/

/-- The quotient rounded to an integer, a half to the even one. -/
def roundHalfEven (num den : Nat) : Nat :=
  let quotient := num / den
  let rest := 2 * (num % den)
  if rest < den then quotient
  else if den < rest then quotient + 1
  else quotient + quotient % 2

/-- The bits of the largest finite float, plus one: those of infinity. -/
def infinityBits : Nat := 0x7FF0000000000000

/-- The exponent of two that scales `num / den` into fifty-three bits, if it is in range. -/
def scaleFor (num den : Nat) : Int :=
  let guess := (num.log2 : Int) - (den.log2 : Int) - 53
  let fits (q : Int) : Bool := num * twoTo (-q).toNat < twoTo 53 * (den * twoTo q.toNat)
  let q := if fits guess then guess else if fits (guess + 1) then guess + 1 else guess + 2
  max q minExponent

/-- The float nearest to the fraction `num / den`, where `den` is positive.  Adding the mantissa to
the scaled exponent lets a mantissa that is rounded up carry into the exponent. -/
def nearest (num den : Nat) : Float :=
  if num = 0 then Float.ofBits 0
  else
    let q := scaleFor num den
    let mantissa := roundHalfEven (num * twoTo (-q).toNat) (den * twoTo q.toNat)
    let bits := (q - minExponent).toNat * twoTo 52 + mantissa
    Float.ofBits (UInt64.ofNat (min bits infinityBits))

/-- The float nearest to an integer; infinite if the integer is out of range. -/
def ofInt : Int → Float
  | .ofNat n => nearest n 1
  | .negSucc n => -nearest (n + 1) 1

/-- The float nearest to a natural number. -/
def ofNat (n : Nat) : Float :=
  nearest n 1

/-- Positive infinity. -/
def infinity : Float := Float.ofBits 0x7FF0000000000000

/-- The value that is no number. -/
def nan : Float := Float.ofBits 0x7FF8000000000000

end LineBasic.Number
