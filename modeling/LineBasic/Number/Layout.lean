import LineBasic.Number.Shortest
import LineBasic.Number.Whole

/-!
# How numbers are written

A number is written with the fewest digits that read back as it: positionally if its decimal
exponent is between -4 and 15, otherwise with an exponent.  Three texts are built on this.

* `exactText` shows every number, an integer with a fractional zero: `1.0`, `1e-07`, `inf`.
* `displayText` is what a program prints: integers below `10 ^ 21` as integers, exponents without
  leading zeros, `NaN` and `Infinity`.
* `literalText` is a number inside a listing of a tree; only finite numbers have one.
-/

set_option autoImplicit false
namespace LineBasic.Number

/-- The choices in writing a number with an exponent or a point. -/
structure Layout where
  /-- The least number of digits of an exponent. -/
  exponentDigits : Nat
deriving DecidableEq, Repr

/-- Exact texts and literals write exponents with two digits or more. -/
def paddedLayout : Layout := ⟨2⟩

/-- Printed numbers write exponents with as few digits as they need. -/
def plainLayout : Layout := ⟨1⟩

/-- A number's digits, padded with zeros on the left to the given width. -/
def padded (width n : Nat) : String :=
  let digits := toString n
  String.ofList (List.replicate (width - digits.length) '0') ++ digits

/-- A decimal in the notation that its exponent asks for. -/
def Layout.decimal (layout : Layout) (d : Decimal) : String :=
  let digits := (toString d.digits).toList
  let point : Int := digits.length + d.exponent
  let leading := point - 1
  if -4 ≤ leading ∧ leading < 16 then
    if 0 ≤ d.exponent then
      String.ofList (digits ++ List.replicate d.exponent.toNat '0') ++ ".0"
    else if 0 < point then
      String.ofList (digits.take point.toNat) ++ "." ++ String.ofList (digits.drop point.toNat)
    else
      "0." ++ String.ofList (List.replicate (-point).toNat '0' ++ digits)
  else
    let mantissa := match digits with
      | [] => ""
      | [d] => String.singleton d
      | d :: rest => String.singleton d ++ "." ++ String.ofList rest
    let sign := if leading < 0 then "-" else "+"
    mantissa ++ "e" ++ sign ++ padded layout.exponentDigits leading.natAbs

/-- A finite number in a layout. -/
def Layout.finite (layout : Layout) (x : Float) : String :=
  let (m, q) := magnitude x
  let sign := if isNegative x then "-" else ""
  sign ++ if m = 0 then "0.0" else layout.decimal (shortest m q)

/-- The text that tells every number from every other, zeros by their sign. -/
def exactText (x : Float) : String :=
  if x.isNaN then "nan"
  else if x.isInf then (if isNegative x then "-inf" else "inf")
  else paddedLayout.finite x

/-- Integers of this size and above are written with an exponent. -/
def wholeLimit : Float := nearest (tenTo 21) 1

/-- The integer that a number is written as, if it is written as one. -/
def wholeForm? (x : Float) : Option Int :=
  match truncate x with
  | .ok n => if isWhole x && x.abs < wholeLimit then some n else none
  | .error _ => none

/-- The text of a number as programs print it. -/
def displayText (x : Float) : String :=
  if x.isNaN then "NaN"
  else if x.isInf then (if isNegative x then "-Infinity" else "Infinity")
  else match wholeForm? x with
    | some n => toString n
    | none => plainLayout.finite x

/-- The text of a number literal in a tree. -/
def literalText (x : Float) : Except Mishap String := do
  let _ ← truncate x
  return match wholeForm? x with
    | some n => toString n
    | none => paddedLayout.finite x

end LineBasic.Number
