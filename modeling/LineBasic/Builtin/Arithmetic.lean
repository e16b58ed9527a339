import LineBasic.Builtin.Argument
import LineBasic.Number.Elementary
import LineBasic.Number.Word32
import LineBasic.Value.Same

/-!
# Arithmetic

Operators and functions on numbers, comparisons, logic, and ranges.  An operator checks its operands
from left to right.
-/

set_option autoImplicit false
namespace LineBasic.Builtin

/-! ## Operators on numbers -/

/-- The numbers that two arguments are. -/
def numbers (b : Builtin) (v w : Value) : Action (Float × Float) := do
  let x ← b.number v
  let y ← b.number w
  return (x, y)

/-- An operator on numbers that always has an answer. -/
def arithmetic (b : Builtin) (f : Float → Float → Float) (v w : Value) : Action Value := do
  let (x, y) ← b.numbers v w
  return .number (f x y)

/-- The sum of numbers, or the texts of two values joined if one of them is a text. -/
def plusOf (v w : Value) : Action Value := do
  match v, w with
  | .number x, .number y => return .number (x + y)
  | .string _, _ | _, .string _ =>
    let left ← Action.describe v
    return .string (left ++ (← Action.describe w))
  | _, _ =>
    let left ← Action.typed v
    Action.fail (.typeMismatch (left ++ " + " ++ (← Action.typed w))
      "two numbers, or a string on either side")

/-- A dividend and a divisor that is not zero. -/
def division (b : Builtin) (v w : Value) : Action (Float × Float) := do
  let (x, y) ← b.numbers v w
  if y == 0 then
    Action.fail (.divisionByZero ("right operand of '" ++ b.name ++ "' is 0"))
  else return (x, y)

/-- The quotient. -/
def divideOf (b : Builtin) (v w : Value) : Action Value := do
  let (x, y) ← b.division v w
  return .number (x / y)

/-- The quotient without its fraction. -/
def quotientOf (b : Builtin) (v w : Value) : Action Value := do
  let (x, y) ← b.division v w
  return .number (← Action.ofNumber (Number.integral Number.truncate (x / y)))

/-- The remainder, with the sign of the dividend. -/
def moduloOf (b : Builtin) (v w : Value) : Action Value := do
  let (x, y) ← b.division v w
  return .number (← Action.ofNumber (Number.remainder x y))

/-- The power. -/
def powerOf (b : Builtin) (v w : Value) : Action Value := do
  let (x, y) ← b.numbers v w
  if x == 0 && y < 0 then
    Action.fail (.divisionByZero ("0 ^ " ++ Number.exactText y))
  else
    let written := Number.exactText x ++ " ^ " ++ Number.exactText y
    match Number.power x y with
    | .ok z => return .number z
    | .error (.undefined _) => Action.fail (.badCall (written ++ " is not a number"))
    | .error (.overflow _) => Action.fail (.divisionByZero (written ++ " overflowed"))

/-! ## Operators on bits -/

/-- An operator on the bits of integer parts, taken from left to right. -/
def bitwise (b : Builtin) (f : Int → Int → Int) (v w : Value) : Action Value := do
  let m ← b.integer v
  let n ← b.integer w
  return .number (Number.ofInt (f m n))

/-- A shift; the integer part of the number of places is taken first. -/
def shift (b : Builtin) (f : Int → Int → Int) (v w : Value) : Action Value := do
  let (x, y) ← b.numbers v w
  let n ← Action.ofNumber (Number.truncate y)
  let m ← Action.ofNumber (Number.truncate x)
  return .number (Number.ofInt (f m n))

/-- The bits that a number does not have. -/
def bitNotOf (b : Builtin) (v : Value) : Action Value := do
  return .number (Number.ofInt (Number.bitNot (← b.integer v)))

/-! ## Logic and comparison -/

/-- An operator on truth values. -/
def logical (b : Builtin) (f : Bool → Bool → Bool) (v w : Value) : Action Value := do
  let x ← b.truth v
  let y ← b.truth w
  return .boolean (f x y)

/-- Whether two values are equal, between numbers and texts loosely. -/
def areEqual (v w : Value) : Action Bool := do
  Action.ofStop ((← get).heap.looselySame v w)

/-- An order on numbers and on texts. -/
def compared (b : Builtin) (onNumbers : Float → Float → Bool) (onTexts : String → String → Bool)
    (v w : Value) : Action Value := do
  match v, w with
  | .number x, .number y => return .boolean (onNumbers x y)
  | .string s, .string t => return .boolean (onTexts s t)
  | _, _ =>
    let left ← Action.typed v
    Action.fail (.typeMismatch (left ++ " " ++ b.name ++ " " ++ (← Action.typed w))
      "two numbers or two strings")

/-! ## Ranges -/

/-- The range between two numbers, with a step of one. -/
def rangeOf (b : Builtin) (v w : Value) : Action Value := do
  let (x, y) ← b.numbers v w
  return .generator (.fresh x y 1)

/-- A range with another step. -/
def stepOf (b : Builtin) (v w : Value) : Action Value := do
  match v with
  | .generator g =>
    let step ← b.number w
    if step == 0 then Action.fail (.badCall "STEP cannot be 0")
    else return .generator (.fresh g.start g.stop step)
  | v => Action.fail (.typeMismatch (← Action.typed v) "a generator, e.g. 1 TO 10 STEP 2")

/-! ## Functions of one number -/

/-- The functions of one number, by name. -/
def elementary? : Builtin → Option (Float → Except Number.Mishap Float)
  | .abs => some fun x ↦ .ok x.abs
  | .sign => some fun x ↦ .ok (Number.sign x)
  | .int | .floor => some (Number.integral Number.floor)
  | .fix => some (Number.integral Number.truncate)
  | .ceil => some (Number.integral Number.ceiling)
  | .round => some Number.round
  | .sqrt => some (Number.guarded false Float.sqrt)
  | .cubeRoot => some fun x ↦ .ok (Number.cubeRoot x)
  | .exp => some (Number.guarded true Float.exp)
  | .log => some (Number.guarded false Float.log)
  | .sin => some (Number.guarded false Float.sin)
  | .cos => some (Number.guarded false Float.cos)
  | .tan => some (Number.guarded false Float.tan)
  | .asin => some (Number.guarded false Float.asin)
  | .acos => some (Number.guarded false Float.acos)
  | .atan => some (Number.guarded false Float.atan)
  | .sinh => some (Number.guarded true Float.sinh)
  | .cosh => some (Number.guarded true Float.cosh)
  | .tanh => some (Number.guarded false Float.tanh)
  | _ => none

/-- Applies a function of one number. -/
def elementaryOf (b : Builtin) (f : Float → Except Number.Mishap Float) (v : Value) :
    Action Value := do
  let x ← b.number v
  match f x with
  | .ok y => return .number y
  | .error (.undefined _) =>
    let written := Number.exactText x
    Action.fail (.badCallOn (b.name ++ " is undefined for " ++ written) written)
  | .error (.overflow _) => Action.fail (.divisionByZero (b.name ++ " overflowed"))

/-- A random number; for zero, the one drawn last. -/
def randomOf (b : Builtin) (v : Value) : Action Value := do
  let x ← b.number v
  if x != 0 then
    modify fun s ↦ { s with random := s.random.next }
  return .number (← get).random.last

end LineBasic.Builtin
