import LineBasic.Number.Reading
import LineBasic.Number.Whole

/-!
# Numerals

The numbers that a program may write: decimals with an optional fraction, exponent and `f`, and
hexadecimal and binary integers.  Underscores may stand among the digits and do not count.

A numeral may still have no value: `0x_` has no digits, and a hexadecimal integer may be too large.
-/

set_option autoImplicit false
namespace LineBasic.Numeral

/-- A digit or underscore, by the digits of the base. -/
def isDigitOf (digits : String) (c : Char) : Bool :=
  c == '_' || digits.toList.contains c

/-- A text that starts with a digit and goes on with digits and underscores. -/
def isWholePart : List Char → Bool
  | c :: cs => c.isDigit && cs.all (isDigitOf "0123456789")
  | [] => false

/-- What may follow the point: digits and underscores from a digit on, then an exponent with digits
only, then the letter `f`. -/
def isFraction (cs : List Char) : Bool :=
  let body := match cs.getLast? with
    | some c => if c == 'f' || c == 'F' then cs.dropLast else cs
    | none => cs
  let digits := body.takeWhile (isDigitOf "0123456789")
  isWholePart digits && match body.dropWhile (isDigitOf "0123456789") with
    | [] => true
    | e :: exponent => (e == 'e' || e == 'E') && !exponent.isEmpty && exponent.all Char.isDigit

/-- A decimal numeral. -/
def isDecimal (cs : List Char) : Bool :=
  isWholePart cs || (isWholePart (cs.takeWhile (· != '.'))
    && match cs.dropWhile (· != '.') with
      | '.' :: fraction => isFraction fraction
      | _ => false)

/-- The base that a text announces by its first two characters. -/
def base? : List Char → Option Nat
  | '0' :: c :: _ =>
    if c == 'x' || c == 'X' then some 16 else if c == 'b' || c == 'B' then some 2 else none
  | _ => none

/-- The digits of a base; letters may be of either case. -/
def digitsOf (base : Nat) : String :=
  if base == 2 then "01" else "0123456789ABCDEFabcdef"

/-- Whether a text is a numeral. -/
def isNumeral (s : String) : Bool :=
  let cs := s.toList
  isDecimal cs || match base? cs with
    | some base =>
      let digits := cs.drop 2
      !digits.isEmpty && digits.all (isDigitOf (digitsOf base))
    | none => false

/-- The value of a hexadecimal digit. -/
def hexDigit (c : Char) : Nat :=
  if c.isDigit then c.toNat - 48 else c.toUpper.toNat - 55

/-- The integer that a run of digits stands for in a base; there has to be a digit. -/
def integer? (base : Nat) (cs : List Char) : Except Number.Mishap Nat :=
  match cs.filter (· != '_') with
  | [] => .error (.undefined "no digits")
  | digits => .ok (digits.foldl (fun n c ↦ n * base + hexDigit c) 0)

/-- The value of a decimal numeral. -/
def decimalValue (cs : List Char) : Float :=
  let digits := cs.filter (· != '_')
  let kept := (digits.reverse.dropWhile fun c ↦ c == 'f' || c == 'F').reverse
  (Number.decimal? false kept).getD Number.nan

/-- The value of a numeral. -/
def value (s : String) : Except Number.Mishap Float := do
  let cs := s.toList
  match base? cs with
  | some base =>
    let x := Number.ofNat (← integer? base (cs.drop 2))
    if x.isInf then .error (.overflow "int too large to convert to float") else .ok x
  | none => .ok (decimalValue cs)

/-- The most digits of an integer that is read from text or written to it. -/
def digitLimit : Nat := 4300

/-- A binary numeral written in decimal, if the text is one. -/
def decimalOfBinary? (s : String) : Except Number.Mishap (Option String) :=
  let cs := s.toList
  if base? cs = some 2 then do
    let text := toString (← integer? 2 (cs.drop 2))
    if digitLimit < text.length then .error (.undefined "too many digits") else .ok (some text)
  else .ok none

end LineBasic.Numeral
